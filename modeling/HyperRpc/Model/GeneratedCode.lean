import HyperRpc.Lib.Scopes
import HyperRpc.Lib.Tables
import HyperRpc.Model.Generator
import HyperRpc.Model.Packet

/-!
# Generated code at run time

What the functions of a generated file do when they are called: the initialization of the
descriptors, the stub methods, the prototypes and `CallMethod`, which runs a handler. The printed
code names most things without qualification, so what a name stands for depends on the scopes
around it: the parameters of the function, the members of its class and of the base classes, and
the namespace of the file. A function that names something it does not find is an error when it
is called; a file with such a function, or with declarations that clash, does not compile at all.
-/
namespace HyperRpc

open Lib

inductive CppError
  /-- `GOOGLE_CHECK` and `GOOGLE_DCHECK_EQ`. -/
  | checkFailed
  /-- "Bad method index; this should never happen." -/
  | badMethodIndex
  /-- `down_cast` of a message that is not of the class. -/
  | badCast
  | nullPointer
  | outOfRange
  /-- A name does not stand for what it is used as. -/
  | undeclared
  deriving DecidableEq, Repr

/-! ## Names -/

inductive CppType
  | value (cls : Str)
  | pointer (isConst : Bool) (cls : Str)
  | constReference (cls : Str)
  deriving DecidableEq, Repr

def doneFunc : CppType := .value (ascii "::hrpc::DoneFunc")
def hyperRpcPointer : CppType := .pointer false (ascii "::hrpc::HyperRpc")
def descriptorPointer : CppType := .pointer true (ascii "::google::protobuf::ServiceDescriptor")
def methodPointer : CppType := .pointer true (ascii "::google::protobuf::MethodDescriptor")
def messagePointer (isConst : Bool) : CppType :=
  .pointer isConst (ascii "::google::protobuf::Message")

inductive Entity
  | type
  | object (type : CppType)
  | function (params : List CppType)
  deriving DecidableEq, Repr

namespace Entity

def isFunction : Entity → Bool
  | function _ => true
  | _ => false

/-- Functions may share a name if their parameters differ. -/
def overloads : Entity → Entity → Bool
  | function params, function params' => params ≠ params'
  | _, _ => false

end Entity

abbrev CppScope := List (Str × Entity)

/-- The call `name(args)`: nothing but functions is found, and one of them takes the arguments. -/
def calls (scopes : List CppScope) (name : Str) (args : List CppType) : Bool :=
  (resolve scopes name).all Entity.isFunction && (resolve scopes name).contains (.function args)

/-- The expression `name`, for an object of the type. -/
def denotes (scopes : List CppScope) (name : Str) (type : CppType) : Bool :=
  resolve scopes name = [.object type]

/-- `std::` is what it is everywhere. Before `::` only types and namespaces are looked up. -/
def keepsStd (scopes : List CppScope) : Bool :=
  scopes.all fun scope => !scope.contains (ascii "std", .type)

def MethodSignature.declares (sig : MethodSignature) : CppScope :=
  (sig.name, .function [.pointer true sig.inputType, .pointer false sig.outputType, doneFunc]) ::
    if sig.sync then
      [(sig.name, .function [.constReference sig.inputType, .pointer false sig.outputType])]
    else []

def implementsService : CppScope :=
  [(ascii "GetDescriptor", .function []),
    (ascii "CallMethod", .function [methodPointer, messagePointer true, messagePointer false,
      doneFunc]),
    (ascii "GetRequestPrototype", .function [methodPointer]),
    (ascii "GetResponsePrototype", .function [methodPointer])]

def serviceMembers : CppScope := (ascii "Service", .type) :: implementsService

def callMethodParams : CppScope :=
  [(ascii "method", .object methodPointer), (ascii "request", .object (messagePointer true)),
    (ascii "response", .object (messagePointer false)), (ascii "done", .object doneFunc)]

def prototypeParams : CppScope := [(ascii "method", .object methodPointer)]

def StubMethod.params (stub : StubMethod) (sync : Bool) : CppScope :=
  if sync then
    [(ascii "request", .object (.constReference stub.inputType)),
      (ascii "response", .object (.pointer false stub.outputType))]
  else
    [(ascii "request", .object (.pointer true stub.inputType)),
      (ascii "response", .object (.pointer false stub.outputType)),
      (ascii "done", .object doneFunc)]

/-- The namespace of the file, together with the unnamed namespace in it. -/
def FileCode.namespaceScope (code : FileCode) : CppScope :=
  (code.services.flatMap fun cls => [(stubName cls.classname, .type), (cls.classname, .type)]) ++
    code.descriptorVars.map (fun var => (var, .object descriptorPointer)) ++
    [(ascii "hrpc_protobuf_AssignDescriptors_once_",
        .object (.value (ascii "::google::protobuf::ProtobufOnceType"))),
      (ascii "hrpc_protobuf_AssignDescriptorsOnce", .function [])]

namespace ServiceCode

variable (cls : ServiceCode)

/-- The scope of `$classname$`. It begins with the name of the class itself. -/
def members : CppScope :=
  [(cls.classname, .type), (ascii "Stub", .type), (ascii "descriptor", .function [])] ++
    cls.signatures.flatMap MethodSignature.declares ++ implementsService

/-- The scope of `$classname$_Stub`. -/
def stubMembers : CppScope :=
  [(stubName cls.classname, .type), (ascii "hrpc", .function [])] ++
    cls.stubSignatures.flatMap MethodSignature.declares ++
    [(ascii "hrpc_", .object hyperRpcPointer)]

variable (code : FileCode)

/-- The scopes around a member function of `$classname$`. -/
def scopes : List CppScope := [cls.members, serviceMembers, code.namespaceScope]

/-- `hrpc_protobuf_AssignDescriptorsOnce()` and `$classname$_descriptor_` in `descriptor()`. -/
def readsDescriptor : Bool :=
  calls (cls.scopes code) (ascii "hrpc_protobuf_AssignDescriptorsOnce") [] &&
    denotes (cls.scopes code) cls.descriptorVar descriptorPointer

/-- `descriptor()` in `GetRequestPrototype` and `GetResponsePrototype`. -/
def prototypeResolves : Bool :=
  calls (prototypeParams :: cls.scopes code) (ascii "descriptor") []

/-- `$classname$_descriptor_` in `CallMethod`. -/
def callMethodResolves : Bool :=
  denotes (callMethodParams :: cls.scopes code) cls.descriptorVar descriptorPointer

/-- `$name$(...)` in `CallMethod`. -/
def handlerResolves (name inputType outputType : Str) : Bool :=
  calls (callMethodParams :: cls.scopes code) name
    [.pointer true inputType, .pointer false outputType, doneFunc]

/-- `hrpc_`, `descriptor()` and, in the asynchronous function, `std::move`. -/
def stubResolves (stub : StubMethod) (sync : Bool) : Bool :=
  let scopes := stub.params sync :: cls.stubMembers :: cls.scopes code
  denotes scopes (ascii "hrpc_") hyperRpcPointer && calls scopes (ascii "descriptor") [] &&
    (sync || keepsStd scopes)

def compiles : Bool :=
  decide (Distinguishable Entity.overloads cls.members) &&
    decide (Distinguishable Entity.overloads cls.stubMembers) &&
    cls.readsDescriptor code && cls.prototypeResolves code && cls.callMethodResolves code &&
    cls.callMethod.all (fun c => cls.handlerResolves code c.name c.inputType c.outputType) &&
    cls.stubMethods.all fun stub =>
      cls.stubResolves code stub true && cls.stubResolves code stub false

end ServiceCode

/-- What a generated file is compiled with: the words that are no identifiers, since they are
keywords or macros of the headers, and the names that the headers declare in the namespace of the
file. -/
structure Surroundings where
  reserved : Str → Bool
  declared : Str → Bool

namespace FileCode

variable (code : FileCode)

def identifiers : List Str :=
  code.services.flatMap fun cls =>
    [cls.classname, stubName cls.classname, cls.descriptorVar] ++
      cls.signatures.map MethodSignature.name

def compiles (around : Surroundings) : Bool :=
  code.identifiers.all (fun name => !around.reserved name) &&
    decide (Distinguishable Entity.overloads code.namespaceScope) &&
    code.namespaceScope.all (fun d => !around.declared d.1) &&
    code.descriptorInitializers.all (fun a => denotes
      [[(ascii "file", .object (.pointer true (ascii "::google::protobuf::FileDescriptor")))],
        code.namespaceScope] a.1 descriptorPointer) &&
    code.services.all fun cls => cls.compiles code

end FileCode

/-! ## Functions -/

/-- What protobuf generates for message types: the names of their classes, `ClassName(type, true)`,
and the default instance of a class. -/
structure MessageClasses (Msg : Type) where
  className : Str → Str
  defaultInstance : Str → Msg

/-- The variables of a generated file, and whether `AssignDescriptorsOnce` has been called. -/
structure Globals where
  assigned : Bool
  descriptors : Str → Option ServiceDescriptor

def Globals.initial : Globals := ⟨false, fun _ => none⟩

def ofPointer {α : Type} : Option α → Except CppError α
  | some a => .ok a
  | none => .error .nullPointer

def FileDescriptor.service (file : FileDescriptor) (index : ℕ) :
    Except CppError ServiceDescriptor :=
  match file.services[index]? with
  | some svc => .ok svc
  | none => .error .outOfRange

def ServiceDescriptor.method (svc : ServiceDescriptor) (index : ℕ) :
    Except CppError MethodDescriptor :=
  if h : index < svc.methods.length then .ok ⟨svc, index, h⟩ else .error .outOfRange

/-- What is run by a call of a member function of a service object. -/
inductive Ran (Msg : Type)
  /-- A function of the user's class. -/
  | handler (name : Str) (request response : Msg)
  /-- The generated function, which only calls `done`. -/
  | done (result : Result)
  deriving DecidableEq, Repr

namespace FileCode

variable (code : FileCode) (findFileByName : Str → Option FileDescriptor)

/-- The function that `AssignDescriptorsOnce` calls once. `findFileByName` is what the generated
pool answers when the descriptors of the messages have been added to it. -/
def assignDescriptors (vars : Str → Option ServiceDescriptor) :
    Except CppError (Str → Option ServiceDescriptor) :=
  match findFileByName code.filename with
  | some file => exec (assign fun index => (file.service index).map some) vars
      code.descriptorInitializers
  | none => .error .checkFailed

def assignDescriptorsOnce (g : Globals) : Except CppError Globals :=
  if g.assigned then .ok g
  else (code.assignDescriptors findFileByName g.descriptors).map fun vars => ⟨true, vars⟩

/-- The variables at some time in the life of a process. Nothing else writes them. -/
inductive Reached : Globals → Prop
  | initial : Reached .initial
  | once {g g' : Globals} (h : Reached g)
      (hstep : code.assignDescriptorsOnce findFileByName g = .ok g') : Reached g'

end FileCode

namespace ServiceCode

variable (code : FileCode) (findFileByName : Str → Option FileDescriptor) (cls : ServiceCode)

/-- `descriptor()`, and `GetDescriptor()`, which has the same body. -/
def getDescriptor (g : Globals) : Except CppError (Globals × Option ServiceDescriptor) :=
  if cls.readsDescriptor code then do
    let g ← code.assignDescriptorsOnce findFileByName g
    return (g, g.descriptors cls.descriptorVar)
  else .error .undeclared

/-- A stub method: the descriptor it passes to `HyperRpc::CallMethod`. -/
def callStub (stub : StubMethod) (sync : Bool) (g : Globals) :
    Except CppError (Globals × MethodDescriptor) :=
  if cls.stubResolves code stub sync then do
    let (g, descriptor) ← cls.getDescriptor code findFileByName g
    let svc ← ofPointer descriptor
    let method ← svc.method (if sync then stub.syncIndex else stub.asyncIndex)
    return (g, method)
  else .error .undeclared

section Messages

variable {Msg : Type} (messages : MessageClasses Msg) (typeOf : Msg → Str)

/-- `GetRequestPrototype` and `GetResponsePrototype`. -/
def getPrototype (isRequest : Bool) (method : MethodDescriptor) (g : Globals) :
    Except CppError (Globals × Msg) :=
  if cls.prototypeResolves code then do
    let (g, descriptor) ← cls.getDescriptor code findFileByName g
    if some method.service = descriptor then
      match lookup PrototypeCase.index
          (if isRequest then cls.requestPrototype else cls.responsePrototype) method.index with
      | some c => return (g, messages.defaultInstance c.type)
      | none => .error .badMethodIndex
    else .error .checkFailed
  else .error .undeclared

def downCast (type : Str) (msg : Msg) : Except CppError Msg :=
  if messages.className (typeOf msg) = type then .ok msg else .error .badCast

/-- The call `$name$(...)` in `CallMethod`, of a virtual function of an object whose class
overrides the functions in `overrides`. -/
def callHandler (overrides : Str → Bool) (name inputType outputType : Str)
    (request response : Msg) : Except CppError (Ran Msg) :=
  if cls.handlerResolves code name inputType outputType then
    if overrides name then .ok (.handler name request response)
    else
      match lookup NotImplementedMethod.name cls.notImplemented name with
      | some m => .ok (.done m.result)
      | none => .error .undeclared
  else .error .undeclared

def runCallMethod (overrides : Str → Bool) (method : MethodDescriptor) (request response : Msg)
    (g : Globals) : Except CppError (Ran Msg) :=
  if cls.callMethodResolves code then
    if some method.service = g.descriptors cls.descriptorVar then
      match lookup CallCase.index cls.callMethod method.index with
      | some c => do
        let request ← downCast messages typeOf c.inputType request
        let response ← downCast messages typeOf c.outputType response
        cls.callHandler code overrides c.name c.inputType c.outputType request response
      | none => .error .badMethodIndex
    else .error .checkFailed
  else .error .undeclared

end Messages

end ServiceCode

end HyperRpc
