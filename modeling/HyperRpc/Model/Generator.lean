import HyperRpc.Model.Types

/-!
# The protoc plugin

What `CppFileGenerator` and `CppServiceGenerator` print for a proto file, as the syntax of those
parts of the printed code that depend on the services and their methods. Every part is printed by
a loop of its own. A message type appears under the name that `ClassName(type, true)` gives it.
-/
namespace HyperRpc

/-- `google::protobuf::FileDescriptor`. The names of its services are distinct, or the proto file
would not have compiled. -/
structure FileDescriptor where
  name : Str
  services : List ServiceDescriptor
  nodup : (services.map ServiceDescriptor.name).Nodup
  deriving DecidableEq

/-! ## Printed code -/

/-- `void $name$(const $input_type$* request, $output_type$* response, ::hrpc::DoneFunc done)`,
and with `sync` also `::hrpc::Result $name$(const $input_type$& request, $output_type$*)`. -/
structure MethodSignature where
  isVirtual : Bool
  name : Str
  inputType : Str
  outputType : Str
  sync : Bool
  deriving DecidableEq, Repr

/-- A member function of the service class that does nothing but `done($result$)`. -/
structure NotImplementedMethod where
  name : Str
  inputType : Str
  outputType : Str
  result : Result
  deriving DecidableEq, Repr

/-- `case $index$: $name$(down_cast<const $input_type$*>(request),
down_cast<$output_type$*>(response), done); break;` -/
structure CallCase where
  index : ℕ
  name : Str
  inputType : Str
  outputType : Str
  deriving DecidableEq, Repr

/-- `case $index$: return $type$::default_instance();` -/
structure PrototypeCase where
  index : ℕ
  type : Str
  deriving DecidableEq, Repr

/-- The two functions of a stub class for one method. Each calls `hrpc_->CallMethod` with
`descriptor()->method($index$)`. -/
structure StubMethod where
  name : Str
  inputType : Str
  outputType : Str
  asyncIndex : ℕ
  syncIndex : ℕ
  deriving DecidableEq, Repr

/-- The service class `$classname$` and the stub class `$classname$_Stub`. `descriptor()` and
`GetDescriptor()` return the variable `descriptorVar`, with which `CallMethod` compares the
service of its method. -/
structure ServiceCode where
  classname : Str
  descriptorVar : Str
  signatures : List MethodSignature
  stubSignatures : List MethodSignature
  notImplemented : List NotImplementedMethod
  callMethod : List CallCase
  requestPrototype : List PrototypeCase
  responsePrototype : List PrototypeCase
  stubMethods : List StubMethod
  deriving DecidableEq, Repr

/-- The variables for the descriptors are null at first. The function that
`hrpc_protobuf_AssignDescriptorsOnce` calls sets them: an initializer `($var$, $index$)` is
`$var$ = file->service($index$);`. -/
structure FileCode where
  filename : Str
  descriptorVars : List Str
  descriptorInitializers : List (Str × ℕ)
  services : List ServiceCode
  deriving DecidableEq, Repr

/-! ## The generators -/

def descriptorVar (classname : Str) : Str := classname ++ ascii "_descriptor_"

def stubName (classname : Str) : Str := classname ++ ascii "_Stub"

namespace CppServiceGenerator

variable (className : Str → Str) (descriptor : ServiceDescriptor)

def generateMethodSignatures (isVirtual : Bool) : List MethodSignature :=
  descriptor.methods.map fun method =>
    { isVirtual := isVirtual
      name := method.name
      inputType := className method.inputType
      outputType := className method.outputType
      sync := !isVirtual }

def generateDescriptorInitializer (index : ℕ) : Str × ℕ := (descriptorVar descriptor.name, index)

def generateNotImplementedMethods : List NotImplementedMethod :=
  descriptor.methods.map fun method =>
    { name := method.name
      inputType := className method.inputType
      outputType := className method.outputType
      result := .kNotImpl }

def generateCallMethod : List CallCase :=
  descriptor.methods.mapIdx fun i method =>
    { index := i
      name := method.name
      inputType := className method.inputType
      outputType := className method.outputType }

def generateGetPrototype (isRequest : Bool) : List PrototypeCase :=
  descriptor.methods.mapIdx fun i method =>
    { index := i
      type := className (if isRequest then method.inputType else method.outputType) }

def generateStubMethods : List StubMethod :=
  descriptor.methods.mapIdx fun i method =>
    { name := method.name
      inputType := className method.inputType
      outputType := className method.outputType
      asyncIndex := i
      syncIndex := i }

/-- `GenerateDeclarations` and `GenerateImplementation`. -/
def generate : ServiceCode where
  classname := descriptor.name
  descriptorVar := descriptorVar descriptor.name
  signatures := generateMethodSignatures className descriptor true
  stubSignatures := generateMethodSignatures className descriptor false
  notImplemented := generateNotImplementedMethods className descriptor
  callMethod := generateCallMethod className descriptor
  requestPrototype := generateGetPrototype className descriptor true
  responsePrototype := generateGetPrototype className descriptor false
  stubMethods := generateStubMethods className descriptor

end CppServiceGenerator

namespace CppFileGenerator

variable (className : Str → Str) (file : FileDescriptor)

def generateBuildDescriptors : List (Str × ℕ) :=
  file.services.mapIdx fun i svc => CppServiceGenerator.generateDescriptorInitializer svc i

/-- `GenerateHeader` and `GenerateSource`. -/
def generate : FileCode where
  filename := file.name
  descriptorVars := file.services.map fun svc => descriptorVar svc.name
  descriptorInitializers := generateBuildDescriptors file
  services := file.services.map (CppServiceGenerator.generate className)

end CppFileGenerator

end HyperRpc
