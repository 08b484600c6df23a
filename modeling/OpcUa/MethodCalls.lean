import OpcUa.ArgumentChecks
import OpcUa.NodeCreation
import OpcUa.ValueRanges

namespace OpcUa.MethodCalls

open StatusCodes NodeIds DataTypes Values AddressSpaces AttributeReads ArgumentChecks
open NodeCreation (hasProperty)
open ServiceTable (numericBits)
open Sessions (ascii)
open ValueRanges (arrList)

section Calls

structure CallMethodRequest where
  objectId : NodeId
  methodId : NodeId
  inputArguments : List ArgumentValue

/-- The call of an attached method, with room for its output arguments. -/
structure MethodCall where
  attachedMethod : Nat
  methodHandle : Nat
  objectId : NodeId
  inputArguments : List ArgumentValue
  outputArgumentsSize : Nat

/-- What an attached method returns, and the bits of a data source that are
taken for the length of an array. -/
structure Callbacks where
  answer : MethodCall → StatusCode
  lengthBits : Nat → Nat

def hasComponent : UInt32 := 47

variable (callbacks : Callbacks) (s : AddressSpace)

/-- The first property of the method with the given name. -/
def getArgumentsVariableNode (ofMethod : Node) (withBrowseName : UaString) : Option VariableMembers :=
  ofMethod.references.findSome? fun r =>
    if r.isInverse = false ∧ nodeIdEqual (numericId 0 hasProperty) r.referenceTypeId then
      match s.get r.targetId.nodeId with
      | none => none
      | some refTarget =>
          match refTarget.body with
          | .variable members =>
              if refTarget.browseName.namespaceIndex = 0 ∧ stringEqual withBrowseName refTarget.browseName.name then
                some members
              else none
          | _ => none
    else none

def argumentOf : Val TypeTable.argument → Argument
  | .struct (.scalar _ (.scalar (.simple dataType) (.scalar (.simple valueRank) (.array arrayDimensions _)))) =>
      ⟨dataType, valueRank.toInt32.toInt, (arrList arrayDimensions).map (fun | .simple x => x)⟩

/-- The arguments in a value, unless it has another type. -/
def argReqs : ValueSource → Option (List Argument)
  | .dataSource _ => none
  | .variant value _ _ =>
      match value with
      | .emptyVariant => none
      | .scalarVariant t data => if h : t = TypeTable.argument then some [argumentOf (h ▸ data)] else none
      | .arrayVariant t data _ =>
          if h : t = TypeTable.argument then some ((arrList data).map (fun v => argumentOf (h ▸ v))) else none

def argConformsToDefinition (argRequirements : VariableMembers) (args : List ArgumentValue) : Option StatusCode :=
  match argReqs argRequirements.value with
  | none => some badInternalError
  | some reqs =>
      if reqs.length > args.length then some badArgumentsMissing
      else if reqs.length ≠ args.length then some badInvalidArgument
      else (args.zip reqs).foldlM (fun retval p => (satisfySignature p.1 p.2).map (retval ||| ·)) good

/-- The object has some reference to the method whose type has the number of
HasComponent in the union of its id. -/
def relates (withObject methodCalled : Node) : Bool :=
  withObject.references.any
    (fun r => numericBits r.referenceTypeId == hasComponent && nodeIdEqual r.targetId.nodeId methodCalled.nodeId)

def verifyInputArguments (methodCalled : Node) (args : List ArgumentValue) : Option StatusCode :=
  match getArgumentsVariableNode s methodCalled (ascii "InputArguments") with
  | some inputArguments => argConformsToDefinition inputArguments args
  | none => some (if args.length > 0 then badInvalidArgument else good)

def outputLength : ValueSource → Nat
  | .variant value _ _ => arrayLength value
  | .dataSource source => callbacks.lengthBits source

/-- The end of `callMethod` with good input arguments. -/
def callAttached (request : CallMethodRequest) (withObject methodCalled : Node) (attachedMethod methodHandle : Nat) :
    StatusCode × List MethodCall :=
  match getArgumentsVariableNode s methodCalled (ascii "OutputArguments") with
  | none => (badInternalError, [])
  | some outputArguments =>
      if attachedMethod = 0 then (badNotWritable, [])
      else
        let call := ⟨attachedMethod, methodHandle, withObject.nodeId, request.inputArguments,
          outputLength callbacks outputArguments.value⟩
        (callbacks.answer call, [call])

/-- The status of the result and the methods that were called. There is none
if an argument without a type is compared. -/
def callMethod (request : CallMethodRequest) : Option (StatusCode × List MethodCall) :=
  match s.get request.methodId with
  | none => some (badMethodInvalid, [])
  | some methodCalled =>
      match s.get request.objectId with
      | none => some (badNodeIdInvalid, [])
      | some withObject =>
          match methodCalled.body with
          | .method executable userExecutable attachedMethod methodHandle =>
              if withObject.nodeClass ≠ .object ∧ withObject.nodeClass ≠ .objectType then some (badNodeClassInvalid, [])
              else if !relates withObject methodCalled then some (badMethodInvalid, [])
              else if executable = 0 ∨ userExecutable = 0 then some (badNotWritable, [])
              else (verifyInputArguments s methodCalled request.inputArguments).map fun status =>
                if status ≠ good then (status, [])
                else callAttached callbacks s request withObject methodCalled attachedMethod methodHandle
          | _ => some (badNodeClassInvalid, [])

end Calls

section Authority

variable (callbacks : Callbacks) (s : AddressSpace) (request : CallMethodRequest)

/-- A forward reference of the type HasComponent of namespace 0. -/
def HasComponentTo (withObject methodCalled : Node) : Prop :=
  ∃ r ∈ withObject.references, r.isInverse = false ∧ nodeIdEqual r.referenceTypeId (numericId 0 hasComponent) = true ∧
    nodeIdEqual r.targetId.nodeId methodCalled.nodeId = true

def ArgumentsConform (methodCalled : Node) (args : List ArgumentValue) : Prop :=
  match getArgumentsVariableNode s methodCalled (ascii "InputArguments") with
  | none => args = []
  | some inputArguments => ∃ reqs, argReqs inputArguments.value = some reqs ∧ List.Forall₂ Conforms args reqs

structure Authorised (withObject methodCalled : Node) : Prop where
  method : s.get request.methodId = some methodCalled
  object : s.get request.objectId = some withObject
  component : HasComponentTo withObject methodCalled
  executable : ∃ executable userExecutable attachedMethod methodHandle,
    methodCalled.body = .method executable userExecutable attachedMethod methodHandle ∧
      executable ≠ 0 ∧ userExecutable ≠ 0
  arguments : ArgumentsConform s methodCalled request.inputArguments

/-- Without authority no method is called, and the status says so. -/
def CallsOnAuthority : Prop :=
  ∃ status calls, callMethod callbacks s request = some (status, calls) ∧
    ((∃ withObject methodCalled, Authorised s request withObject methodCalled) ∨ calls = [] ∧ status ≠ good)

/-- The checks in front of that of the arguments are passed. -/
structure Reached (withObject methodCalled : Node) (attachedMethod methodHandle : Nat) : Prop where
  method : s.get request.methodId = some methodCalled
  object : s.get request.objectId = some withObject
  nodeClass : ¬ (withObject.nodeClass ≠ .object ∧ withObject.nodeClass ≠ .objectType)
  related : relates withObject methodCalled = true
  executable : ∃ executable userExecutable,
    methodCalled.body = .method executable userExecutable attachedMethod methodHandle ∧
      executable ≠ 0 ∧ userExecutable ≠ 0

/-- All checks of the arguments are passed, and there is a method to call. -/
structure Invokes (methodCalled : Node) (attachedMethod : Nat) : Prop where
  input : verifyInputArguments s methodCalled request.inputArguments = some good
  output : getArgumentsVariableNode s methodCalled (ascii "OutputArguments") ≠ none
  attached : attachedMethod ≠ 0

/-- The input arguments with their definitions, as many of the ones as of the
others. -/
def Defined (methodCalled : Node) (reqs : List Argument) : Prop :=
  ∃ inputArguments, getArgumentsVariableNode s methodCalled (ascii "InputArguments") = some inputArguments ∧
    argReqs inputArguments.value = some reqs ∧ request.inputArguments.length = reqs.length

/-- Where the checks of the code are enough. -/
structure Reliable (withObject methodCalled : Node) (attachedMethod : Nat) : Prop where
  typed : ∀ reqs, Defined s request methodCalled reqs → ∀ v ∈ request.inputArguments, typeOf v.value ≠ none
  component : Invokes s request methodCalled attachedMethod → HasComponentTo withObject methodCalled
  arguments : Invokes s request methodCalled attachedMethod →
    ∀ reqs, Defined s request methodCalled reqs → List.Forall₂ Sound request.inputArguments reqs

end Authority

section Results

variable {callbacks : Callbacks} {s : AddressSpace} {request : CallMethodRequest} {withObject methodCalled : Node}
  {attachedMethod methodHandle : Nat} {args : List ArgumentValue} {reqs : List Argument} {members : VariableMembers}

section Folding

variable {α : Type} {f : α → Option StatusCode} {ps : List α} {retval : StatusCode}

theorem foldlM_eq_none_iff : ps.foldlM (fun retval p => (f p).map (retval ||| ·)) retval = none ↔
    ∃ p ∈ ps, f p = none := by
  induction ps generalizing retval with
  | nil => simp
  | cons p ps ih =>
      rw [List.foldlM_cons]
      cases hp : f p with
      | none => simp [hp]
      | some status =>
          have hrest : ps.foldlM (fun retval p => (f p).map (retval ||| ·)) (retval ||| status) = none ↔ _ := ih
          simp [hp, hrest]

theorem foldlM_eq_good_iff : ps.foldlM (fun retval p => (f p).map (retval ||| ·)) retval = some good ↔
    retval = good ∧ ∀ p ∈ ps, f p = some good := by
  induction ps generalizing retval with
  | nil => simp
  | cons p ps ih =>
      rw [List.foldlM_cons]
      cases hp : f p with
      | none => simp [hp]
      | some status =>
          have hrest : ps.foldlM (fun retval p => (f p).map (retval ||| ·)) (retval ||| status) = some good ↔ _ := ih
          simp [hp, hrest, or_eq_good, and_assoc]

end Folding

theorem satisfySignature_eq_none_iff {v : ArgumentValue} {arg : Argument} :
    satisfySignature v arg = none ↔ typeOf v.value = none := by
  rw [satisfySignature, Option.map_eq_none_iff]

/-- An accepted argument conforms to its definition if the check of it was
sound. -/
theorem conforms_iff_sound {v : ArgumentValue} {arg : Argument} (h : satisfySignature v arg = some good) :
    Conforms v arg ↔ Sound v arg := by
  cases htype : typeOf v.value with
  | none =>
      rw [satisfySignature_eq_none_iff.mpr htype] at h
      cases h
  | some type =>
      have htyped : typeOf v.value ≠ none := by
        rw [htype]
        exact Option.some_ne_none type
      obtain ⟨status, hstatus, hgood⟩ := satisfySignature_eq_good arg htype
      rw [h] at hstatus
      obtain ⟨hid, haccepted⟩ := hgood.mp (Option.some.inj hstatus).symm
      rw [conforms_iff htype, documented_iff_of_accepted htyped haccepted]
      exact and_iff_right hid

theorem argConforms_eq_good_iff : argConformsToDefinition members args = some good ↔
    ∃ reqs, argReqs members.value = some reqs ∧
      List.Forall₂ (fun v arg => satisfySignature v arg = some good) args reqs := by
  rw [argConformsToDefinition]
  cases argReqs members.value with
  | none => simp [show badInternalError ≠ good by decide]
  | some reqs =>
      simp only [Option.some.injEq, exists_eq_left', List.forall₂_iff_zip]
      split
      · next hmissing => simp [show badArgumentsMissing ≠ good by decide, Nat.ne_of_lt hmissing]
      · split
        · next hne => simp [show badInvalidArgument ≠ good by decide, Ne.symm hne]
        · next hlength =>
          rw [foldlM_eq_good_iff (f := fun p : ArgumentValue × Argument => satisfySignature p.1 p.2)]
          simp [(not_not.mp hlength).symm]

theorem argConforms_eq_none_iff : argConformsToDefinition members args = none ↔
    ∃ reqs, argReqs members.value = some reqs ∧ args.length = reqs.length ∧ ∃ v ∈ args, typeOf v.value = none := by
  rw [argConformsToDefinition]
  cases argReqs members.value with
  | none => simp
  | some reqs =>
      simp only [Option.some.injEq, exists_eq_left']
      split
      · next hmissing => simp [Nat.ne_of_lt hmissing]
      · split
        · next hne => simp [Ne.symm hne]
        · next hlength =>
          have hsame : args.length = reqs.length := (not_not.mp hlength).symm
          rw [foldlM_eq_none_iff (f := fun p : ArgumentValue × Argument => satisfySignature p.1 p.2)]
          simp only [satisfySignature_eq_none_iff, hsame, true_and]
          constructor
          · rintro ⟨⟨v, arg⟩, hmem, hnone⟩
            exact ⟨v, (List.of_mem_zip hmem).1, hnone⟩
          · rintro ⟨v, hmem, hnone⟩
            obtain ⟨i, hi, rfl⟩ := List.getElem_of_mem hmem
            refine ⟨(args[i], reqs[i]), List.mem_iff_getElem.mpr ⟨i, ?_, List.getElem_zip⟩, hnone⟩
            rw [List.length_zip]
            omega

theorem Reached.unique {withObject' methodCalled' : Node} {attachedMethod' methodHandle' : Nat}
    (h : Reached s request withObject methodCalled attachedMethod methodHandle)
    (h' : Reached s request withObject' methodCalled' attachedMethod' methodHandle') :
    withObject' = withObject ∧ methodCalled' = methodCalled ∧ attachedMethod' = attachedMethod := by
  have hobject := h'.object
  have hmethod := h'.method
  rw [h.object] at hobject
  rw [h.method] at hmethod
  cases hobject
  cases hmethod
  obtain ⟨e, u, hbody, _⟩ := h.executable
  obtain ⟨e', u', hbody', _⟩ := h'.executable
  rw [hbody] at hbody'
  cases hbody'
  exact ⟨rfl, rfl, rfl⟩

theorem callMethod_of_reached (h : Reached s request withObject methodCalled attachedMethod methodHandle) :
    callMethod callbacks s request = (verifyInputArguments s methodCalled request.inputArguments).map fun status =>
      if status ≠ good then (status, [])
      else callAttached callbacks s request withObject methodCalled attachedMethod methodHandle := by
  obtain ⟨e, u, hbody, he, hu⟩ := h.executable
  rw [callMethod, h.method]
  dsimp only
  rw [h.object]
  dsimp only
  rw [hbody]
  dsimp only
  rw [if_neg h.nodeClass, h.related, if_neg (by decide), if_neg (not_or.mpr ⟨he, hu⟩)]

theorem callMethod_cases (callbacks : Callbacks) (s : AddressSpace) (request : CallMethodRequest) :
    (∃ status, status ≠ good ∧ callMethod callbacks s request = some (status, [])) ∨
      ∃ withObject methodCalled attachedMethod methodHandle,
        Reached s request withObject methodCalled attachedMethod methodHandle := by
  rw [callMethod]
  cases hmethod : s.get request.methodId with
  | none => exact .inl ⟨badMethodInvalid, by decide, rfl⟩
  | some methodCalled =>
      cases hobject : s.get request.objectId with
      | none => exact .inl ⟨badNodeIdInvalid, by decide, rfl⟩
      | some withObject =>
          dsimp only
          split
          · next executable userExecutable attachedMethod methodHandle hbody =>
            split
            · exact .inl ⟨badNodeClassInvalid, by decide, rfl⟩
            · next hclass =>
              split
              · exact .inl ⟨badMethodInvalid, by decide, rfl⟩
              · next hrelated =>
                split
                · exact .inl ⟨badNotWritable, by decide, rfl⟩
                · next hexecutable =>
                  refine .inr ⟨withObject, methodCalled, attachedMethod, methodHandle, hmethod, hobject, hclass, ?_,
                    executable, userExecutable, hbody, not_or.mp hexecutable⟩
                  simpa using hrelated
          · exact .inl ⟨badNodeClassInvalid, by decide, rfl⟩

theorem callAttached_of_not_invokes (callbacks : Callbacks) (withObject : Node) (methodHandle : Nat)
    (hinput : verifyInputArguments s methodCalled request.inputArguments = some good)
    (h : ¬ Invokes s request methodCalled attachedMethod) :
    ∃ status, status ≠ good ∧ callAttached callbacks s request withObject methodCalled attachedMethod methodHandle =
      (status, []) := by
  rw [callAttached]
  cases houtput : getArgumentsVariableNode s methodCalled (ascii "OutputArguments") with
  | none => exact ⟨badInternalError, by decide, rfl⟩
  | some outputArguments =>
      refine ⟨badNotWritable, by decide, if_pos ?_⟩
      by_contra hattached
      apply h
      exact ⟨hinput, by rw [houtput]; exact Option.some_ne_none _, hattached⟩

theorem callAttached_of_invokes (callbacks : Callbacks) (withObject : Node) (methodHandle : Nat)
    (h : Invokes s request methodCalled attachedMethod) : ∃ status call,
    callAttached callbacks s request withObject methodCalled attachedMethod methodHandle = (status, [call]) := by
  obtain ⟨outputArguments, houtput⟩ := Option.ne_none_iff_exists'.mp h.output
  rw [callAttached, houtput]
  exact ⟨_, _, if_neg h.attached⟩

theorem typed_iff : (∀ reqs, Defined s request methodCalled reqs → ∀ v ∈ request.inputArguments,
    typeOf v.value ≠ none) ↔
    verifyInputArguments s methodCalled request.inputArguments ≠ none := by
  rw [verifyInputArguments]
  constructor
  · intro h hnone
    cases hinput : getArgumentsVariableNode s methodCalled (ascii "InputArguments") with
    | none =>
        rw [hinput] at hnone
        cases hnone
    | some inputArguments =>
        rw [hinput] at hnone
        obtain ⟨reqs, hreqs, hlength, v, hv, htype⟩ := argConforms_eq_none_iff.mp hnone
        exact h reqs ⟨inputArguments, hinput, hreqs, hlength⟩ v hv htype
  · rintro h reqs ⟨inputArguments, hinput, hreqs, hlength⟩ v hv htype
    apply h
    rw [hinput]
    exact argConforms_eq_none_iff.mpr ⟨reqs, hreqs, hlength, v, hv, htype⟩

/-- Of arguments that the code has accepted, those conform whose check was
sound. -/
theorem argumentsConform_iff (hinput : verifyInputArguments s methodCalled request.inputArguments = some good) :
    ArgumentsConform s methodCalled request.inputArguments ↔
      ∀ reqs, Defined s request methodCalled reqs → List.Forall₂ Sound request.inputArguments reqs := by
  rw [verifyInputArguments] at hinput
  rw [ArgumentsConform]
  cases hnode : getArgumentsVariableNode s methodCalled (ascii "InputArguments") with
  | none =>
      rw [hnode] at hinput
      constructor
      · rintro _ reqs ⟨inputArguments, hsome, _⟩
        rw [hnode] at hsome
        cases hsome
      · intro _
        by_contra hne
        have hstatus := Option.some.inj hinput
        rw [if_pos (List.length_pos_iff.mpr hne)] at hstatus
        exact absurd hstatus (by decide)
  | some inputArguments =>
      rw [hnode] at hinput
      obtain ⟨reqs, hreqs, haccepted⟩ := argConforms_eq_good_iff.mp hinput
      have hlength := haccepted.length_eq
      have hpairs : List.Forall₂ Conforms request.inputArguments reqs ↔
        List.Forall₂ Sound request.inputArguments reqs := by
        rw [List.forall₂_iff_zip] at haccepted
        rw [List.forall₂_iff_zip, List.forall₂_iff_zip]
        apply and_congr_right
        intro _
        constructor
        · intro h a b hab
          exact (conforms_iff_sound (haccepted.2 hab)).mp (h hab)
        · intro h a b hab
          exact (conforms_iff_sound (haccepted.2 hab)).mpr (h hab)
      constructor
      · rintro ⟨reqs', hreqs', hconform⟩ reqs'' ⟨inputArguments', hnode', hreqs'', _⟩
        rw [hnode] at hnode'
        cases hnode'
        rw [hreqs] at hreqs' hreqs''
        cases hreqs'
        cases hreqs''
        exact hpairs.mp hconform
      · intro h
        exact ⟨reqs, hreqs, hpairs.mpr (h reqs ⟨inputArguments, hnode, hreqs, hlength⟩)⟩

theorem Reached.authorised_iff (h : Reached s request withObject methodCalled attachedMethod methodHandle) :
    (∃ withObject methodCalled, Authorised s request withObject methodCalled) ↔
      HasComponentTo withObject methodCalled ∧ ArgumentsConform s methodCalled request.inputArguments := by
  constructor
  · rintro ⟨withObject', methodCalled', hauthorised⟩
    have hobject := hauthorised.object
    have hmethod := hauthorised.method
    rw [h.object] at hobject
    rw [h.method] at hmethod
    cases hobject
    cases hmethod
    exact ⟨hauthorised.component, hauthorised.arguments⟩
  · rintro ⟨hcomponent, harguments⟩
    obtain ⟨e, u, hbody, hflags⟩ := h.executable
    exact ⟨withObject, methodCalled, h.method, h.object, hcomponent,
      ⟨e, u, attachedMethod, methodHandle, hbody, hflags⟩,
      harguments⟩

theorem Reached.callsOnAuthority_iff (callbacks : Callbacks)
    (h : Reached s request withObject methodCalled attachedMethod methodHandle) :
    CallsOnAuthority callbacks s request ↔ Reliable s request withObject methodCalled attachedMethod := by
  rw [CallsOnAuthority, callMethod_of_reached h, h.authorised_iff]
  cases hinput : verifyInputArguments s methodCalled request.inputArguments with
  | none =>
      constructor
      · rintro ⟨status, calls, hresult, _⟩
        cases hresult
      · intro hreliable
        exact absurd hinput (typed_iff.mp hreliable.typed)
  | some status =>
      have htyped := typed_iff.mpr (show verifyInputArguments s methodCalled request.inputArguments ≠ none by
        rw [hinput]; exact Option.some_ne_none status)
      rw [Option.map_some]
      by_cases hinvokes : Invokes s request methodCalled attachedMethod
      · obtain rfl : status = good := Option.some.inj (hinput.symm.trans hinvokes.input)
        obtain ⟨answer, call, hattached⟩ := callAttached_of_invokes callbacks withObject methodHandle hinvokes
        rw [if_neg (not_not.mpr rfl), hattached, argumentsConform_iff hinput]
        constructor
        · rintro ⟨_, calls, hresult, hauthority | ⟨hcalls, _⟩⟩
          · exact ⟨htyped, fun _ => hauthority.1, fun _ => hauthority.2⟩
          · cases hresult
            cases hcalls
        · intro hreliable
          exact ⟨_, _, rfl, .inl ⟨hreliable.component hinvokes, hreliable.arguments hinvokes⟩⟩
      · have hreliable : Reliable s request withObject methodCalled attachedMethod :=
          ⟨htyped, fun hinv => absurd hinv hinvokes, fun hinv => absurd hinv hinvokes⟩
        refine iff_of_true ?_ hreliable
        by_cases hgood : status = good
        · subst hgood
          obtain ⟨status, hbad, hattached⟩ := callAttached_of_not_invokes callbacks withObject
            methodHandle hinput hinvokes
          rw [if_neg (not_not.mpr rfl), hattached]
          exact ⟨status, [], rfl, .inr ⟨rfl, hbad⟩⟩
        · rw [if_pos hgood]
          exact ⟨status, [], rfl, .inr ⟨rfl, hgood⟩⟩

/-- Any reference whose type has the number 47 in its id makes the method one
of the object, in whatever direction and namespace. -/
theorem calls_on_authority_iff (callbacks : Callbacks) (s : AddressSpace) (request : CallMethodRequest) :
    CallsOnAuthority callbacks s request ↔ ∀ withObject methodCalled attachedMethod methodHandle,
      Reached s request withObject methodCalled attachedMethod methodHandle →
        Reliable s request withObject methodCalled attachedMethod := by
  by_cases hreached : ∃ withObject methodCalled attachedMethod methodHandle,
      Reached s request withObject methodCalled attachedMethod methodHandle
  · obtain ⟨withObject, methodCalled, attachedMethod, methodHandle, h⟩ := hreached
    rw [h.callsOnAuthority_iff callbacks]
    constructor
    · intro hreliable o m a handle h'
      obtain ⟨rfl, rfl, rfl⟩ := h.unique h'
      exact hreliable
    · intro hall
      exact hall _ _ _ _ h
  · have hnone : ∀ withObject methodCalled attachedMethod methodHandle,
        Reached s request withObject methodCalled attachedMethod methodHandle →
          Reliable s request withObject methodCalled attachedMethod :=
      fun o m a handle h => absurd ⟨o, m, a, handle, h⟩ hreached
    refine iff_of_true ?_ hnone
    rcases callMethod_cases callbacks s request with ⟨status, hbad, hresult⟩ | h
    · exact ⟨status, [], hresult, .inr ⟨rfl, hbad⟩⟩
    · exact absurd h hreached

end Results

section Example

open NodeCreation (argumentsNode)
open SubTypes (plainNode)

/-- A method with output arguments, to which an object has a reference of a
type of its own namespace. -/
def ownReference : AddressSpace where
  nodes :=
    [{ plainNode (numericId 1 1) (.object 0 0) with
        references := [⟨numericId 1 47, false, ⟨numericId 1 2, none, 0⟩⟩] },
      { plainNode (numericId 1 2) (.method 1 1 3 0) with
        references := [⟨numericId 0 hasProperty, false, ⟨numericId 1 3, none, 0⟩⟩] },
      { argumentsNode 1 "OutputArguments" .null with nodeId := numericId 1 3 }]
  distinct := by decide

def callOwn : CallMethodRequest := ⟨numericId 1 1, numericId 1 2, []⟩

def agreeing : Callbacks := ⟨fun _ => good, fun _ => 0⟩

theorem called_without_component : ¬ CallsOnAuthority agreeing ownReference callOwn := by
  rintro ⟨status, calls, hresult, ⟨withObject, methodCalled, hauthorised⟩ | ⟨hcalls, _⟩⟩
  · have hobject : ownReference.get callOwn.objectId = some _ := rfl
    rw [hauthorised.object] at hobject
    cases hobject
    obtain ⟨r, hr, _, htype, _⟩ := hauthorised.component
    rw [List.mem_singleton.mp hr] at htype
    exact absurd htype (by decide)
  · have hcalled : (callMethod agreeing ownReference callOwn).map (fun r => r.2.length) = some 1 := by rfl
    rw [hresult, hcalls] at hcalled
    cases hcalled

end Example

end OpcUa.MethodCalls
