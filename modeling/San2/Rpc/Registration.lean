import San2.Library.TwoTables
import San2.Rpc.RpcConnection

/-!
# Registering functions

Invoker and executor keep two tables each, one of functions without a response and one of
synchronous functions. The invoker looks at both tables before it registers a function, the
executor only at the one that the function goes into; but its `executeFunction` looks for a
synchronous function only where there is no other one with the identifier. Neither of them
looks at the largest identifier under which a response can be sent.
-/

namespace San2.Rpc

open Utils TwoTables

/-- The two tables of an invoker. -/
structure CRpcInvoker where
  m_functions : List (UInt32 × CIRpcFunctionOut)
  m_syncFunctions : List (UInt32 × CIRpcSyncFunctionOut)

namespace CRpcInvoker

/-- `insert` of a map keeps an entry that is already there. -/
def registerFunction (invoker : CRpcInvoker) (func : CIRpcFunctionOut) : Bool × CRpcInvoker :=
  let uniqueId := func.getUniqueId
  if (invoker.m_syncFunctions.lookup uniqueId).isSome then (false, invoker)
  else if (invoker.m_functions.lookup uniqueId).isSome then (false, invoker)
  else (true, { invoker with m_functions := (uniqueId, func) :: invoker.m_functions })

/-- `CRpcInvoker::registerSyncFunction` -/
def registerSyncFunction (invoker : CRpcInvoker) (syncFunc : CIRpcSyncFunctionOut) :
    Bool × CRpcInvoker :=
  let uniqueId := syncFunc.getUniqueId
  if (invoker.m_functions.lookup uniqueId).isSome then (false, invoker)
  else if (invoker.m_syncFunctions.lookup uniqueId).isSome then (false, invoker)
  else (true, { invoker with
    m_syncFunctions := (uniqueId, syncFunc) :: invoker.m_syncFunctions })

/-- A call of one of the two. -/
inductive Registration
  | function (func : CIRpcFunctionOut)
  | syncFunction (syncFunc : CIRpcSyncFunctionOut)

/-- The identifier of the function. -/
def Registration.getUniqueId : Registration → UInt32
  | .function func => func.getUniqueId
  | .syncFunction syncFunc => syncFunc.getUniqueId

/-- The call on an invoker. -/
def register (invoker : CRpcInvoker) : Registration → Bool × CRpcInvoker
  | .function func => invoker.registerFunction func
  | .syncFunction syncFunc => invoker.registerSyncFunction syncFunc

/-- The identifier is in the first table. -/
def HasFunction (invoker : CRpcInvoker) (uniqueId : UInt32) : Prop :=
  (invoker.m_functions.lookup uniqueId).isSome = true

/-- The identifier is in the second table. -/
def HasSyncFunction (invoker : CRpcInvoker) (uniqueId : UInt32) : Prop :=
  (invoker.m_syncFunctions.lookup uniqueId).isSome = true

end CRpcInvoker

namespace CRpcExecutor

variable {ω : Type}

/-- A call of `registerFunction` or `registerSyncFunction` with the identifier of the object. -/
inductive Registration (ω : Type)
  | function (uniqueId : UInt32) (func : CIRpcFunctionIn ω)
  | syncFunction (uniqueId : UInt32) (syncFunc : CIRpcSyncFunctionIn ω)

/-- The identifier of the function. -/
def Registration.getUniqueId : Registration ω → UInt32
  | .function uniqueId _ => uniqueId
  | .syncFunction uniqueId _ => uniqueId

/-- The call on an executor. -/
def register (executor : CRpcExecutor ω) : Registration ω → Bool × CRpcExecutor ω
  | .function uniqueId func => executor.registerFunction uniqueId func
  | .syncFunction uniqueId syncFunc => executor.registerSyncFunction uniqueId syncFunc

/-- The identifier is in the first table. -/
def HasFunction (executor : CRpcExecutor ω) (uniqueId : UInt32) : Prop :=
  (executor.m_functions.lookup uniqueId).isSome = true

/-- The identifier is in the second table. -/
def HasSyncFunction (executor : CRpcExecutor ω) (uniqueId : UInt32) : Prop :=
  (executor.m_syncFunctions.lookup uniqueId).isSome = true

end CRpcExecutor

/-- Objects that keep functions in two tables. -/
structure Registrar (S R : Type) where
  register : S → R → Bool × S
  getUniqueId : R → UInt32
  HasFunction : S → UInt32 → Prop
  HasSyncFunction : S → UInt32 → Prop

/-- The calls on an invoker, and its tables. -/
def invokerRegistrar : Registrar CRpcInvoker CRpcInvoker.Registration where
  register := CRpcInvoker.register
  getUniqueId := CRpcInvoker.Registration.getUniqueId
  HasFunction := CRpcInvoker.HasFunction
  HasSyncFunction := CRpcInvoker.HasSyncFunction

/-- The calls on an executor, and its tables. -/
def executorRegistrar (ω : Type) : Registrar (CRpcExecutor ω) (CRpcExecutor.Registration ω) where
  register := CRpcExecutor.register
  getUniqueId := CRpcExecutor.Registration.getUniqueId
  HasFunction := CRpcExecutor.HasFunction
  HasSyncFunction := CRpcExecutor.HasSyncFunction

namespace Registrar

variable {S R : Type} (registrar : Registrar S R)

/-- Every identifier is in at most one of the tables. -/
def Exclusive (s : S) : Prop :=
  ∀ uniqueId, ¬(registrar.HasFunction s uniqueId ∧ registrar.HasSyncFunction s uniqueId)

/-- A call returns false exactly for an identifier that some table has, and then it changes
nothing. -/
structure CallCorrect (s : S) (r : R) : Prop where
  result : (registrar.register s r).1 = false ↔
    registrar.HasFunction s (registrar.getUniqueId r) ∨
      registrar.HasSyncFunction s (registrar.getUniqueId r)
  unchanged : (registrar.register s r).1 = false → (registrar.register s r).2 = s

/-- What holds in every state of a sequence of calls and of every call. -/
def Correct : S → List R → Prop
  | s, [] => registrar.Exclusive s
  | s, r :: rs =>
    registrar.Exclusive s ∧ registrar.CallCorrect s r ∧ Correct (registrar.register s r).2 rs

/-- The calls with their results, and the state after them. -/
def registerAll : S → List R → List (R × Bool) × S
  | s, [] => ([], s)
  | s, r :: rs =>
    let (results, last) := registerAll (registrar.register s r).2 rs
    ((r, (registrar.register s r).1) :: results, last)

/-- The results are those of the calls. -/
theorem mem_of_mem_registerAll {s : S} {rs : List R} {r : R} {result : Bool}
    (h : (r, result) ∈ (registrar.registerAll s rs).1) : r ∈ rs := by
  induction rs generalizing s with
  | nil => cases h
  | cons first rs ih =>
    rcases List.mem_cons.mp h with heq | hrest
    · rw [(Prod.mk.inj heq).1]
      exact List.mem_cons_self
    · exact List.mem_cons_of_mem first (ih hrest)

/-- The objects are two tables, seen through `view`, and a registration is one of an entry. -/
structure Views {α β : Type}
    (insert : Tables UInt32 α β → Entry UInt32 α β → Bool × Tables UInt32 α β)
    (view : S → Tables UInt32 α β) (entry : R → Entry UInt32 α β) : Prop where
  register : ∀ s r,
    insert (view s) (entry r) = ((registrar.register s r).1, view (registrar.register s r).2)
  injective : Function.Injective view
  key : ∀ r, (entry r).key = registrar.getUniqueId r
  first : ∀ s uniqueId,
    registrar.HasFunction s uniqueId ↔ ((view s).first.lookup uniqueId).isSome = true
  second : ∀ s uniqueId,
    registrar.HasSyncFunction s uniqueId ↔ ((view s).second.lookup uniqueId).isSome = true

variable {registrar} {α β : Type}
  {insert : Tables UInt32 α β → Entry UInt32 α β → Bool × Tables UInt32 α β}
  {view : S → Tables UInt32 α β} {entry : R → Entry UInt32 α β}

/-- No identifier is in both tables if no key is in both of the view. -/
theorem Views.exclusive_iff (h : registrar.Views insert view entry) (s : S) :
    registrar.Exclusive s ↔ (view s).Exclusive :=
  forall_congr' fun uniqueId => not_congr (and_congr (h.first s uniqueId) (h.second s uniqueId))

/-- A call is treated right if its insertion into the view is. -/
theorem Views.callCorrect_iff (h : registrar.Views insert view entry) (s : S) (r : R) :
    registrar.CallCorrect s r ↔
      ((insert (view s) (entry r)).1 = false ↔ (view s).Taken (entry r).key) ∧
      ((insert (view s) (entry r)).1 = false → (insert (view s) (entry r)).2 = view s) := by
  rw [h.register, h.key]
  have htaken : registrar.HasFunction s (registrar.getUniqueId r) ∨
      registrar.HasSyncFunction s (registrar.getUniqueId r) ↔
        (view s).Taken (registrar.getUniqueId r) := or_congr (h.first s _) (h.second s _)
  constructor
  · intro hcall
    exact ⟨hcall.result.trans htaken, fun hfalse => congrArg view (hcall.unchanged hfalse)⟩
  · rintro ⟨hresult, hunchanged⟩
    exact ⟨hresult.trans htaken.symm, fun hfalse => h.injective (hunchanged hfalse)⟩

/-- The calls are treated right when the registrations of their entries are. -/
theorem Views.correct_iff (h : registrar.Views insert view entry) (s : S) (rs : List R) :
    registrar.Correct s rs ↔ Tables.Answered insert (rs.map entry) (view s) := by
  induction rs generalizing s with
  | nil => exact h.exclusive_iff s
  | cons r rs ih =>
    rw [List.map_cons, Tables.Answered, Correct, h.exclusive_iff, h.callCorrect_iff, ih,
      and_assoc, h.register]

/-- A sequence of calls inserts its entries into the view. -/
theorem Views.registerAll_eq (h : registrar.Views insert view entry) (s : S) (rs : List R) :
    Tables.insertAll insert (rs.map entry) (view s) =
      ((registrar.registerAll s rs).1.map fun (r, result) => (entry r, result),
        view (registrar.registerAll s rs).2) := by
  induction rs generalizing s with
  | nil => rfl
  | cons r rs ih => rw [List.map_cons, Tables.insertAll, h.register, ih]; rfl

end Registrar

namespace CRpcInvoker

/-- The tables and entries of an invoker. -/
def view (invoker : CRpcInvoker) : Tables UInt32 CIRpcFunctionOut CIRpcSyncFunctionOut :=
  ⟨invoker.m_functions, invoker.m_syncFunctions⟩

/-- The entry that a call makes. -/
def Registration.entry : Registration → Entry UInt32 CIRpcFunctionOut CIRpcSyncFunctionOut
  | .function func => .first func.getUniqueId func
  | .syncFunction syncFunc => .second syncFunc.getUniqueId syncFunc

/-- The invoker looks at both tables. -/
theorem views : invokerRegistrar.Views Tables.insertChecked view Registration.entry where
  register invoker r := by
    cases r with
    | function func =>
      by_cases hother : (invoker.m_syncFunctions.lookup func.getUniqueId).isSome = true
      · simp [invokerRegistrar, register, registerFunction, Registration.entry,
          Tables.insertChecked, Tables.elsewhere, view, hother]
      · by_cases hown : (invoker.m_functions.lookup func.getUniqueId).isSome = true
        · simp [invokerRegistrar, register, registerFunction, Registration.entry,
            Tables.insertChecked, Tables.elsewhere, Tables.insert, Tables.insertInto, view, hother,
            hown]
        · simp [invokerRegistrar, register, registerFunction, Registration.entry,
            Tables.insertChecked, Tables.elsewhere, Tables.insert, Tables.insertInto, view, hother,
            hown]
    | syncFunction syncFunc =>
      by_cases hother : (invoker.m_functions.lookup syncFunc.getUniqueId).isSome = true
      · simp [invokerRegistrar, register, registerSyncFunction, Registration.entry,
          Tables.insertChecked, Tables.elsewhere, view, hother]
      · by_cases hown : (invoker.m_syncFunctions.lookup syncFunc.getUniqueId).isSome = true
        · simp [invokerRegistrar, register, registerSyncFunction, Registration.entry,
            Tables.insertChecked, Tables.elsewhere, Tables.insert, Tables.insertInto, view, hother,
            hown]
        · simp [invokerRegistrar, register, registerSyncFunction, Registration.entry,
            Tables.insertChecked, Tables.elsewhere, Tables.insert, Tables.insertInto, view, hother,
            hown]
  injective first second h := by
    cases first
    cases second
    obtain ⟨rfl, rfl⟩ := Tables.mk.inj h
    rfl
  key r := by cases r <;> rfl
  first _ _ := Iff.rfl
  second _ _ := Iff.rfl

end CRpcInvoker

namespace CRpcExecutor

variable {ω : Type}

/-- The tables of an executor. -/
def view (executor : CRpcExecutor ω) :
    Tables UInt32 (CIRpcFunctionIn ω) (CIRpcSyncFunctionIn ω) :=
  ⟨executor.m_functions, executor.m_syncFunctions⟩

/-- The entry that a call makes. -/
def Registration.entry :
    Registration ω → Entry UInt32 (CIRpcFunctionIn ω) (CIRpcSyncFunctionIn ω)
  | .function uniqueId func => .first uniqueId func
  | .syncFunction uniqueId syncFunc => .second uniqueId syncFunc

/-- The executor looks at one table. -/
theorem views : (executorRegistrar ω).Views Tables.insert view Registration.entry where
  register executor r := by
    cases r with
    | function uniqueId func =>
      by_cases hown : (executor.m_functions.lookup uniqueId).isSome = true
      · simp [executorRegistrar, register, registerFunction, Registration.entry, Tables.insert,
          Tables.insertInto, view, hown]
      · simp [executorRegistrar, register, registerFunction, Registration.entry, Tables.insert,
          Tables.insertInto, view, hown]
    | syncFunction uniqueId syncFunc =>
      by_cases hown : (executor.m_syncFunctions.lookup uniqueId).isSome = true
      · simp [executorRegistrar, register, registerSyncFunction, Registration.entry,
          Tables.insert, Tables.insertInto, view, hown]
      · simp [executorRegistrar, register, registerSyncFunction, Registration.entry,
          Tables.insert, Tables.insertInto, view, hown]
  injective first second h := by
    cases first
    cases second
    obtain ⟨rfl, rfl⟩ := Tables.mk.inj h
    rfl
  key r := by cases r <;> rfl
  first _ _ := Iff.rfl
  second _ _ := Iff.rfl

/-- What `executeFunction` does with a function that it has found. -/
def runFunction (func : CIRpcFunctionIn ω) (uniqueId : UInt32) (data : Bytes) :
    StateT (ExecutorState ω) Option RpcError := fun s =>
  let (ok, world) := func.unpack data s.world
  if !ok then some (.unpackError, { s with world := world })
  else some (.success, { s with
    world := func.call world
    executed := s.executed ++ [(uniqueId, data)] })

/-- What `executeFunction` does with a synchronous function that it has found; the response is
sent. -/
def runSyncFunction (host : ByteOrder) (syncFunc : CIRpcSyncFunctionIn ω) (uniqueId : UInt32)
    (data : Bytes) : StateT (ExecutorState ω) Option RpcError := fun s =>
  let (ok, world) := syncFunc.unpack data s.world
  if !ok then some (.unpackError, { s with world := world })
  else
    let (response, world) := syncFunc.getResponse (syncFunc.call world)
    match executorChannel.sendData host uniqueId response s.link with
    | none => none
    | some (sent, link) => some (if sent then .success else .failure,
        { link := link, world := world, executed := s.executed ++ [(uniqueId, data)] })

/-- `executeFunction` runs the registered function for its identifier. -/
def Runs (executor : CRpcExecutor ω) : Registration ω → Prop
  | .function uniqueId func => ∀ host data,
    executor.executeFunction host uniqueId data = runFunction func uniqueId data
  | .syncFunction uniqueId syncFunc => ∀ host data,
    executor.executeFunction host uniqueId data = runSyncFunction host syncFunc uniqueId data

/-- What is found in the tables is run. -/
theorem runs_of_find {executor : CRpcExecutor ω} {r : Registration ω}
    (h : executor.view.find r.getUniqueId = some r.entry) : executor.Runs r := by
  rcases Tables.find_cases h with ⟨func, hentry, hfirst⟩ | ⟨syncFunc, hentry, hfirst, hsecond⟩
  · cases r with
    | function uniqueId func' =>
      obtain ⟨-, rfl⟩ := Entry.first.inj hentry
      intro host data
      have hfind : executor.findFunction uniqueId = some func' := hfirst
      funext s
      simp only [executeFunction, hfind]
      rfl
    | syncFunction uniqueId syncFunc => cases hentry
  · cases r with
    | function uniqueId func => cases hentry
    | syncFunction uniqueId syncFunc' =>
      obtain ⟨-, rfl⟩ := Entry.second.inj hentry
      intro host data
      have hfind : executor.findFunction uniqueId = none := hfirst
      have hsync : executor.findSyncFunction uniqueId = some syncFunc' := hsecond
      funext s
      simp only [executeFunction, hfind, hsync]
      rfl

/-- A synchronous function that is run sends its response. -/
theorem runSyncFunction_sends (host : ByteOrder) (syncFunc : CIRpcSyncFunctionIn ω)
    {uniqueId : UInt32} (hid : uniqueId ≤ sanRpcMaxFid) (data : Bytes) (s : ExecutorState ω)
    (hunpack : (syncFunc.unpack data s.world).1 = true) :
    ∃ s', runSyncFunction host syncFunc uniqueId data s = some (.success, s') ∧
      s'.link.toInvoker = s.link.toInvoker ++ [CIRpcChannel.datagram uniqueId
        (syncFunc.getResponse (syncFunc.call (syncFunc.unpack data s.world).2)).1] := by
  simp only [runSyncFunction, hunpack, Bool.not_true, Bool.false_eq_true, if_false,
    executorChannel.sendData_of_le host hid]
  exact ⟨_, rfl, rfl⟩

/-- A call of a synchronous function whose arguments can be unpacked is answered with the
response of the function. -/
def Answers (executor : CRpcExecutor ω) : Registration ω → Prop
  | .function _ _ => True
  | .syncFunction uniqueId syncFunc => ∀ host data s,
    (syncFunc.unpack data s.world).1 = true →
      ∃ s', executor.executeFunction host uniqueId data s = some (.success, s') ∧
        s'.link.toInvoker = s.link.toInvoker ++ [CIRpcChannel.datagram uniqueId
          (syncFunc.getResponse (syncFunc.call (syncFunc.unpack data s.world).2)).1]

/-- `sendData` refuses the response under an identifier that is too large. -/
theorem runSyncFunction_of_lt (host : ByteOrder) (syncFunc : CIRpcSyncFunctionIn ω)
    {uniqueId : UInt32} (hid : sanRpcMaxFid < uniqueId) (data : Bytes) (s : ExecutorState ω)
    (hunpack : (syncFunc.unpack data s.world).1 = true) :
    ∃ s', runSyncFunction host syncFunc uniqueId data s = some (.failure, s') := by
  simp only [runSyncFunction, hunpack, Bool.not_true, Bool.false_eq_true, if_false,
    CIRpcChannel.sendData, if_pos hid]
  exact ⟨_, rfl⟩

/-- A synchronous function that is run is answered exactly if its identifier is small enough
or its arguments can never be unpacked. -/
theorem Runs.answers_iff {executor : CRpcExecutor ω} {uniqueId : UInt32}
    {syncFunc : CIRpcSyncFunctionIn ω} (h : executor.Runs (.syncFunction uniqueId syncFunc)) :
    executor.Answers (.syncFunction uniqueId syncFunc) ↔
      ((∃ data world, (syncFunc.unpack data world).1 = true) → uniqueId ≤ sanRpcMaxFid) := by
  constructor
  · rintro hanswers ⟨data, world, hunpack⟩
    by_contra hid
    obtain ⟨s', hsuccess, -⟩ := hanswers .littleEndian data ⟨⟨[], []⟩, world, []⟩ hunpack
    obtain ⟨s'', hfailure⟩ := runSyncFunction_of_lt .littleEndian syncFunc
      (UInt32.not_le.mp hid) data ⟨⟨[], []⟩, world, []⟩ hunpack
    rw [h, hfailure] at hsuccess
    cases hsuccess
  · intro hid host data s hunpack
    rw [h]
    exact runSyncFunction_sends host syncFunc (hid ⟨data, s.world, hunpack⟩) data s hunpack

/-- A new executor. -/
def empty : CRpcExecutor ω := ⟨[], []⟩

/-- The calls are treated right, and every function whose registration returned true is the one
that is run for its identifier and, if it is a synchronous one, answered. -/
structure RegistersCorrectly (rs : List (Registration ω)) : Prop where
  correct : (executorRegistrar ω).Correct empty rs
  runs : ∀ r, (r, true) ∈ ((executorRegistrar ω).registerAll empty rs).1 →
    ((executorRegistrar ω).registerAll empty rs).2.Runs r
  answers : ∀ r, (r, true) ∈ ((executorRegistrar ω).registerAll empty rs).1 →
    ((executorRegistrar ω).registerAll empty rs).2.Answers r

/-- No identifier is registered both for a function without a response and for a synchronous
one. -/
def NoSharedId (rs : List (Registration ω)) : Prop :=
  ∀ uniqueId func syncFunc,
    ¬(.function uniqueId func ∈ rs ∧ .syncFunction uniqueId syncFunc ∈ rs)

/-- The first function under an identifier, if it is a synchronous one that can be called at
all, has an identifier under which a response can be sent. -/
def ResponseIds (rs : List (Registration ω)) : Prop :=
  ∀ uniqueId syncFunc,
    rs.find? (fun r => uniqueId == r.getUniqueId) = some (.syncFunction uniqueId syncFunc) →
      (∃ data world, (syncFunc.unpack data world).1 = true) → uniqueId ≤ sanRpcMaxFid

/-- Conflicts go both ways. -/
theorem conflicts_comm (r r' : Registration ω) :
    Tables.conflicts r.entry r'.entry = Tables.conflicts r'.entry r.entry := by
  cases r with
  | function uniqueId func =>
    cases r' with
    | function uniqueId' func' => rfl
    | syncFunction uniqueId' syncFunc' => exact BEq.comm
  | syncFunction uniqueId syncFunc =>
    cases r' with
    | function uniqueId' func' => exact BEq.comm
    | syncFunction uniqueId' syncFunc' => rfl

/-- No identifier is shared exactly if no two entries conflict. -/
theorem noSharedId_iff (rs : List (Registration ω)) :
    NoSharedId rs ↔ (rs.map Registration.entry).Pairwise fun entry other =>
      Tables.conflicts entry other = false := by
  rw [List.pairwise_map]
  constructor
  · intro h
    refine List.pairwise_of_forall_mem_list fun r hr r' hr' => ?_
    rw [← Bool.not_eq_true]
    intro hconflict
    cases r with
    | function uniqueId func =>
      cases r' with
      | function uniqueId' func' => cases hconflict
      | syncFunction uniqueId' syncFunc' =>
        obtain rfl := eq_of_beq hconflict
        exact h uniqueId' func syncFunc' ⟨hr, hr'⟩
    | syncFunction uniqueId syncFunc =>
      cases r' with
      | function uniqueId' func' =>
        obtain rfl := eq_of_beq hconflict
        exact h uniqueId' func' syncFunc ⟨hr', hr⟩
      | syncFunction uniqueId' syncFunc' => cases hconflict
  · rintro h uniqueId func syncFunc ⟨hfunction, hsync⟩
    have hflip : rs.Pairwise (flip fun r r' : Registration ω =>
        Tables.conflicts r.entry r'.entry = false) := by
      refine h.imp fun {r r'} hfalse => ?_
      rw [flip, conflicts_comm]
      exact hfalse
    have hself : ∀ r ∈ rs, Tables.conflicts (Registration.entry r) r.entry = false := by
      intro r _
      cases r <;> rfl
    have hnone := List.Pairwise.forall_of_forall_of_flip hself h hflip hfunction hsync
    have hsame : Tables.conflicts (Registration.function uniqueId func).entry
        (Registration.syncFunction uniqueId syncFunc).entry = true := beq_self_eq_true uniqueId
    cases hnone.symm.trans hsame

/-- Calls are known by their entries. -/
theorem entry_injective : Function.Injective (@Registration.entry ω) := by
  intro r r' h
  cases r with
  | function uniqueId func =>
    cases r' with
    | function uniqueId' func' =>
      obtain ⟨rfl, rfl⟩ := Entry.first.inj h
      rfl
    | syncFunction uniqueId' syncFunc' => cases h
  | syncFunction uniqueId syncFunc =>
    cases r' with
    | function uniqueId' func' => cases h
    | syncFunction uniqueId' syncFunc' =>
      obtain ⟨rfl, rfl⟩ := Entry.second.inj h
      rfl

section Registered

variable {rs : List (Registration ω)} {r : Registration ω}

/-- A sequence that is treated right is one in which both tables are looked at. -/
theorem registerAll_eq (h : (executorRegistrar ω).Correct empty rs) :
    Tables.insertAll Tables.insertChecked (rs.map Registration.entry)
        (view (empty : CRpcExecutor ω)) =
      (((executorRegistrar ω).registerAll empty rs).1.map fun (r, result) => (r.entry, result),
        view ((executorRegistrar ω).registerAll empty rs).2) := by
  rw [← Tables.insertAll_insert_eq ((views.correct_iff empty rs).mp h)]
  exact views.registerAll_eq empty rs

/-- What has been registered is found for its identifier, if all calls were treated right. -/
theorem find_of_registered (h : (executorRegistrar ω).Correct empty rs)
    (hr : (r, true) ∈ ((executorRegistrar ω).registerAll empty rs).1) :
    ((executorRegistrar ω).registerAll empty rs).2.view.find r.getUniqueId = some r.entry := by
  have hmem : (r.entry, true) ∈
      (Tables.insertAll Tables.insertChecked (rs.map Registration.entry)
        (view (empty : CRpcExecutor ω))).1 := by
    rw [registerAll_eq h]
    exact List.mem_map.mpr ⟨(r, true), hr, rfl⟩
  have hfind := Tables.find_insertAll hmem
  rwa [registerAll_eq h, views.key] at hfind

/-- The first registration under an identifier returns true. -/
theorem registered_of_find? (h : (executorRegistrar ω).Correct empty rs)
    (hfirst : rs.find? (fun other => r.getUniqueId == other.getUniqueId) = some r) :
    (r, true) ∈ ((executorRegistrar ω).registerAll empty rs).1 := by
  have hfree : ¬ (view (empty : CRpcExecutor ω)).Taken r.entry.key := by
    rintro (hfirst | hsecond)
    · cases hfirst
    · cases hsecond
  have hkey : (fun other : Entry UInt32 (CIRpcFunctionIn ω) (CIRpcSyncFunctionIn ω) =>
      r.entry.key == other.key) ∘ Registration.entry =
        fun other : Registration ω => r.getUniqueId == other.getUniqueId := by
    funext other
    change (r.entry.key == other.entry.key) = _
    rw [views.key, views.key]
    rfl
  have hentry : (rs.map Registration.entry).find? (fun other => r.entry.key == other.key) =
      some r.entry := by
    rw [List.find?_map, hkey, hfirst]
    rfl
  have hmem := Tables.mem_insertAll_of_find? hfree hentry
  rw [registerAll_eq h] at hmem
  obtain ⟨⟨r', result⟩, hr', heq⟩ := List.mem_map.mp hmem
  obtain ⟨hsame, rfl⟩ := Prod.mk.inj heq
  rwa [← entry_injective hsame]

/-- A registration that has returned true was the first one under its identifier. -/
theorem find?_of_registered (h : (executorRegistrar ω).Correct empty rs)
    (hr : (r, true) ∈ ((executorRegistrar ω).registerAll empty rs).1) :
    rs.find? (fun other => r.getUniqueId == other.getUniqueId) = some r := by
  have hmem : r ∈ rs := (executorRegistrar ω).mem_of_mem_registerAll hr
  cases hfirst : rs.find? (fun other => r.getUniqueId == other.getUniqueId) with
  | none => exact absurd (beq_self_eq_true _) (List.find?_eq_none.mp hfirst r hmem)
  | some r' =>
    have hid : r.getUniqueId = r'.getUniqueId := by
      have hsame : (r.getUniqueId == r'.getUniqueId) = true :=
        @List.find?_some (Registration ω) (fun other => r.getUniqueId == other.getUniqueId) _ _ hfirst
      exact eq_of_beq hsame
    rw [hid] at hfirst
    have hfind := find_of_registered h (registered_of_find? h hfirst)
    rw [← hid, find_of_registered h hr] at hfind
    rw [entry_injective (Option.some.inj hfind)]

end Registered

/-- The executor registers correctly exactly if no identifier is shared and responses can be
sent. -/
theorem registersCorrectly_iff (rs : List (Registration ω)) :
    RegistersCorrectly rs ↔ NoSharedId rs ∧ ResponseIds rs := by
  have hanswered : (executorRegistrar ω).Correct empty rs ↔ NoSharedId rs := by
    rw [views.correct_iff, noSharedId_iff]
    exact Tables.answered_insert_empty_iff _
  constructor
  · intro h
    refine ⟨hanswered.mp h.correct, ?_⟩
    intro uniqueId syncFunc hfirst
    have hregistered := @registered_of_find? ω rs (.syncFunction uniqueId syncFunc) h.correct hfirst
    exact (h.runs _ hregistered).answers_iff.mp (h.answers _ hregistered)
  · rintro ⟨hshared, hids⟩
    have hcorrect := hanswered.mpr hshared
    have hruns : ∀ r, (r, true) ∈ ((executorRegistrar ω).registerAll empty rs).1 →
        ((executorRegistrar ω).registerAll empty rs).2.Runs r :=
      fun r hr => runs_of_find (find_of_registered hcorrect hr)
    refine ⟨hcorrect, hruns, ?_⟩
    intro r hr
    cases r with
    | function uniqueId func => trivial
    | syncFunction uniqueId syncFunc =>
      exact (hruns _ hr).answers_iff.mpr (hids _ _ (find?_of_registered hcorrect hr))

end CRpcExecutor

/-- A new invoker. -/
def CRpcInvoker.empty : CRpcInvoker := ⟨[], []⟩

/-- The invoker treats every sequence of calls right, the executor exactly those in which no
identifier is used for functions of both kinds and none that is used for a synchronous function
is too large for a response. -/
theorem registrations_correct_iff {ω : Type} (invoked : List CRpcInvoker.Registration)
    (executed : List (CRpcExecutor.Registration ω)) :
    invokerRegistrar.Correct CRpcInvoker.empty invoked ∧
      (CRpcExecutor.RegistersCorrectly executed ↔
        CRpcExecutor.NoSharedId executed ∧ CRpcExecutor.ResponseIds executed) := by
  refine ⟨?_, CRpcExecutor.registersCorrectly_iff executed⟩
  rw [CRpcInvoker.views.correct_iff]
  exact Tables.answered_insertChecked Tables.exclusive_empty _

/-- A function that does nothing and one that answers, under one identifier. -/
def sharedIdentifier : List (CRpcExecutor.Registration Unit) :=
  [.function 7 ⟨fun _ world => (true, world), id⟩,
    .syncFunction 7 ⟨⟨fun _ world => (true, world), id⟩, fun world => ([1], world)⟩]

/-- Both registrations return true, and a call of the synchronous function is never answered. -/
theorem registrations_correct_sharedIdentifier :
    ((executorRegistrar Unit).registerAll CRpcExecutor.empty sharedIdentifier).1.map Prod.snd =
        [true, true] ∧
      (((executorRegistrar Unit).registerAll CRpcExecutor.empty sharedIdentifier).2.executeFunction
        .littleEndian 7 [] ⟨⟨[], []⟩, (), []⟩).map (fun (code, s) => (code, s.link.toInvoker)) =
          some (.success, []) ∧
      ¬ CRpcExecutor.RegistersCorrectly sharedIdentifier := by
  refine ⟨by decide, by decide, ?_⟩
  intro h
  have hexclusive := h.correct.2.2.2.2
  exact hexclusive 7 ⟨rfl, rfl⟩

end San2.Rpc
