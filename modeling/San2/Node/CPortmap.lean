import Mathlib.Data.List.AList
import Mathlib.Order.Basic

/-!
# Ports and their owners

A port belongs to the queue of the application that has registered it. Ephemeral
ports are searched from a persistent start position to the end of the range, and then
from the beginning of the range to the start position.
-/

namespace San2.Node

/-- `SAN2_BEGIN_EPHEMERAL_PORT` -/
def beginEphemeralPort : UInt16 := 40000

/-- The owners of the ports, and where the search for an ephemeral port begins. -/
structure CPortmap (κ : Type) where
  mapPorts : AList fun _ : UInt16 => κ
  m_ephemeralPort : UInt16

namespace CPortmap

variable {κ : Type}

/-- A new port map has no owners. -/
def create : CPortmap κ := ⟨∅, beginEphemeralPort⟩

/-- A port that has an owner keeps it. -/
def registerPort (port : UInt16) (applicationQueue : κ) (pm : CPortmap κ) : Bool × CPortmap κ :=
  match pm.mapPorts.lookup port with
  | some _ => (false, pm)
  | none => (true, { pm with mapPorts := pm.mapPorts.insert port applicationQueue })

/-- `CPortmap::unregisterPort` -/
def unregisterPort (port : UInt16) (pm : CPortmap κ) : Bool × CPortmap κ :=
  ((pm.mapPorts.lookup port).isSome, { pm with mapPorts := pm.mapPorts.erase port })

/-- The owner of a port; `none` stands for the null pointer. -/
def getPortQueue (port : UInt16) (pm : CPortmap κ) : Option κ := pm.mapPorts.lookup port

/-- The loop of `freePorts` over the entries from the iterator on. Erasing an entry
leaves the iterator behind it valid. -/
def freePortsFrom [DecidableEq κ] (applicationQueue : κ) :
    List (Sigma fun _ : UInt16 => κ) → (AList fun _ : UInt16 => κ) → AList fun _ : UInt16 => κ
  | [], mapPorts => mapPorts
  | itr :: rest, mapPorts =>
    if itr.2 = applicationQueue then freePortsFrom applicationQueue rest (mapPorts.erase itr.1)
    else freePortsFrom applicationQueue rest mapPorts

/-- `CPortmap::freePorts` -/
def freePorts [DecidableEq κ] (applicationQueue : κ) (pm : CPortmap κ) : CPortmap κ :=
  { pm with mapPorts := freePortsFrom applicationQueue pm.mapPorts.entries pm.mapPorts }

/-- Below a bound a port has a next one. -/
theorem toNat_succ_of_lt {port last : UInt16} (h : port < last) :
    (port + 1).toNat = port.toNat + 1 := by
  have hlt := UInt16.lt_iff_toNat_lt.mp h
  have hlast := last.toNat_lt
  rw [UInt16.toNat_add, UInt16.toNat_one]
  exact Nat.mod_eq_of_lt (by omega)

/-- A loop of `getEphemeralPort`: register the first free port in front of `last`. -/
def registerFrom (applicationQueue : κ) (last port : UInt16) (pm : CPortmap κ) :
    Option UInt16 × CPortmap κ :=
  if _h : port < last then
    let (registered, pm) := pm.registerPort port applicationQueue
    if registered then (some port, pm)
    else registerFrom applicationQueue last (port + 1) pm
  else (none, pm)
termination_by last.toNat - port.toNat
decreasing_by
  have hlt := UInt16.lt_iff_toNat_lt.mp _h
  have hsucc := toNat_succ_of_lt _h
  omega

/-- Where the next search begins. The sum is an `int`. -/
def nextEphemeralPort (port : UInt16) : UInt16 :=
  if port.toNat + 1 > 65535 then beginEphemeralPort else port + 1

/-- Return the port of the loop that has registered one, or zero. The second loop runs
only if the first one has found nothing. -/
def searchPort (first : Option UInt16 × CPortmap κ)
    (second : CPortmap κ → Option UInt16 × CPortmap κ) : UInt16 × CPortmap κ :=
  match first with
  | (some port, pm) => (port, { pm with m_ephemeralPort := nextEphemeralPort port })
  | (none, pm) =>
    match second pm with
    | (some port, pm) => (port, { pm with m_ephemeralPort := nextEphemeralPort port })
    | (none, pm) => (0, pm)

/-- The first loop of `getEphemeralPort`. -/
def registerAbove (applicationQueue : κ) (pm : CPortmap κ) : Option UInt16 × CPortmap κ :=
  pm.registerFrom applicationQueue 65535 pm.m_ephemeralPort

/-- The second loop of `getEphemeralPort`. -/
def registerBelow (applicationQueue : κ) (pm : CPortmap κ) : Option UInt16 × CPortmap κ :=
  pm.registerFrom applicationQueue pm.m_ephemeralPort beginEphemeralPort

/-- `CPortmap::getEphemeralPort` -/
def getEphemeralPort (applicationQueue : κ) (pm : CPortmap κ) : UInt16 × CPortmap κ :=
  searchPort (pm.registerAbove applicationQueue) (registerBelow applicationQueue)

variable {pm : CPortmap κ}

/-- A port with an owner is refused. -/
theorem registerPort_owned {port : UInt16} {owner : κ} (h : pm.getPortQueue port = some owner)
    (applicationQueue : κ) : pm.registerPort port applicationQueue = (false, pm) := by
  have hlookup : pm.mapPorts.lookup port = some owner := h
  simp only [registerPort, hlookup]

/-- A free port is registered. -/
theorem registerPort_free {port : UInt16} (h : pm.getPortQueue port = none)
    (applicationQueue : κ) :
    pm.registerPort port applicationQueue =
      (true, { pm with mapPorts := pm.mapPorts.insert port applicationQueue }) := by
  have hlookup : pm.mapPorts.lookup port = none := h
  simp only [registerPort, hlookup]

/-- The owner of a port after another one has been registered. -/
theorem getPortQueue_insert (port other : UInt16) (applicationQueue : κ) (ephemeralPort : UInt16) :
    (CPortmap.mk (pm.mapPorts.insert port applicationQueue) ephemeralPort).getPortQueue other =
      if other = port then some applicationQueue else pm.getPortQueue other := by
  unfold getPortQueue
  by_cases heq : other = port
  · rw [if_pos heq, heq, AList.lookup_insert]
  · rw [if_neg heq, AList.lookup_insert_ne heq]

/-- A registration succeeds exactly if the port is free. -/
theorem registerPort_fst_iff (port : UInt16) (applicationQueue : κ) :
    (pm.registerPort port applicationQueue).1 = true ↔ pm.getPortQueue port = none := by
  by_cases hfree : pm.getPortQueue port = none
  · rw [registerPort_free hfree]
    exact iff_of_true rfl hfree
  · obtain ⟨owner, howner⟩ := Option.ne_none_iff_exists'.mp hfree
    rw [registerPort_owned howner]
    exact iff_of_false Bool.false_ne_true hfree

/-- The owners after a registration: the queue has a port that was free, and everything
else is as it was. -/
theorem getPortQueue_registerPort (port other : UInt16) (applicationQueue : κ) :
    (pm.registerPort port applicationQueue).2.getPortQueue other =
      if other = port ∧ pm.getPortQueue port = none then some applicationQueue
      else pm.getPortQueue other := by
  by_cases hfree : pm.getPortQueue port = none
  · rw [registerPort_free hfree, getPortQueue_insert]
    simp only [hfree, and_true]
  · obtain ⟨owner, howner⟩ := Option.ne_none_iff_exists'.mp hfree
    rw [registerPort_owned howner, if_neg fun h => hfree h.2]

/-- The owners after a port has been given back. -/
theorem getPortQueue_unregisterPort (port other : UInt16) :
    (pm.unregisterPort port).2.getPortQueue other =
      if other = port then none else pm.getPortQueue other := by
  unfold getPortQueue unregisterPort
  by_cases heq : other = port
  · rw [if_pos heq, heq, AList.lookup_erase]
  · rw [if_neg heq, AList.lookup_erase_ne heq]

section FreePorts

variable [DecidableEq κ] (applicationQueue : κ)

/-- The loop erases the ports of the entries that it passes and that the queue owns. -/
theorem lookup_freePortsFrom (entries : List (Sigma fun _ : UInt16 => κ))
    (mapPorts : AList fun _ : UInt16 => κ) (port : UInt16) :
    (freePortsFrom applicationQueue entries mapPorts).lookup port =
      if (⟨port, applicationQueue⟩ : Sigma fun _ : UInt16 => κ) ∈ entries then none
      else mapPorts.lookup port := by
  induction entries generalizing mapPorts with
  | nil => simp [freePortsFrom]
  | cons itr entries ih =>
    obtain ⟨first, owner⟩ := itr
    simp only [freePortsFrom, List.mem_cons, Sigma.mk.injEq, heq_eq_eq]
    by_cases howner : owner = applicationQueue
    · rw [if_pos howner, ih]
      by_cases hport : port = first
      · rw [hport, AList.lookup_erase]
        simp [howner]
      · rw [AList.lookup_erase_ne hport]
        simp [hport]
    · rw [if_neg howner, ih]
      have hother : ¬ (port = first ∧ applicationQueue = owner) := fun h => howner h.2.symm
      simp only [hother, false_or]

/-- `freePorts` removes exactly the ports of the queue. -/
theorem getPortQueue_freePorts (port : UInt16) :
    (pm.freePorts applicationQueue).getPortQueue port =
      if pm.getPortQueue port = some applicationQueue then none else pm.getPortQueue port := by
  have hmem := AList.mem_lookup_iff (a := port) (b := applicationQueue) (s := pm.mapPorts)
  unfold getPortQueue freePorts
  rw [lookup_freePortsFrom]
  simp only [← hmem, Option.mem_def]

end FreePorts

/-- What a loop of `getEphemeralPort` finds: the first free port in its range, or that
there is none. -/
inductive Finds (applicationQueue : κ) (last port : UInt16) (pm : CPortmap κ) :
    Option UInt16 × CPortmap κ → Prop
  | free (found : UInt16) (hle : port ≤ found) (hlt : found < last)
      (hfree : pm.getPortQueue found = none) :
      Finds applicationQueue last port pm
        (some found, { pm with mapPorts := pm.mapPorts.insert found applicationQueue })
  | full (howned : ∀ owned, port ≤ owned → owned < last → pm.getPortQueue owned ≠ none) :
      Finds applicationQueue last port pm (none, pm)

/-- A port that is found is the first free one. -/
theorem Finds.of_some {applicationQueue : κ} {last port found : UInt16} {pm' : CPortmap κ}
    (h : Finds applicationQueue last port pm (some found, pm')) :
    port ≤ found ∧ found < last ∧ pm.getPortQueue found = none ∧
      pm' = { pm with mapPorts := pm.mapPorts.insert found applicationQueue } := by
  cases h with
  | free found hle hlt hfree => exact ⟨hle, hlt, hfree, rfl⟩

/-- If no port is found, all have owners. -/
theorem Finds.of_none {applicationQueue : κ} {last port : UInt16} {pm' : CPortmap κ}
    (h : Finds applicationQueue last port pm (none, pm')) :
    (∀ owned, port ≤ owned → owned < last → pm.getPortQueue owned ≠ none) ∧ pm' = pm := by
  cases h with
  | full howned => exact ⟨howned, rfl⟩

/-- A loop whose first port is free takes that port. -/
theorem registerFrom_free {last port : UInt16} (hlt : port < last)
    (hfree : pm.getPortQueue port = none) (applicationQueue : κ) :
    pm.registerFrom applicationQueue last port =
      (some port, { pm with mapPorts := pm.mapPorts.insert port applicationQueue }) := by
  rw [registerFrom, dif_pos hlt, registerPort_free hfree]
  rfl

/-- A loop whose first port has an owner goes on behind it. -/
theorem registerFrom_owned {last port : UInt16} (hlt : port < last)
    (howned : pm.getPortQueue port ≠ none) (applicationQueue : κ) :
    pm.registerFrom applicationQueue last port =
      pm.registerFrom applicationQueue last (port + 1) := by
  obtain ⟨owner, howner⟩ := Option.ne_none_iff_exists'.mp howned
  rw [registerFrom, dif_pos hlt, registerPort_owned howner]
  rfl

/-- There is nothing to search from the end on. -/
theorem registerFrom_end {last port : UInt16} (hlt : ¬ port < last) (applicationQueue : κ) :
    pm.registerFrom applicationQueue last port = (none, pm) := by
  rw [registerFrom, dif_neg hlt]

/-- The induction is on the length of the rest of the range. -/
theorem registerFrom_finds (applicationQueue : κ) (last port : UInt16) (pm : CPortmap κ) :
    Finds applicationQueue last port pm (pm.registerFrom applicationQueue last port) := by
  induction hrest : last.toNat - port.toNat generalizing port with
  | zero =>
    have hend : ¬ port < last := by
      rw [UInt16.lt_iff_toNat_lt]
      omega
    rw [registerFrom_end hend]
    apply Finds.full
    intro owned hle hlt
    rw [UInt16.le_iff_toNat_le] at hle
    rw [UInt16.lt_iff_toNat_lt] at hlt
    omega
  | succ rest ih =>
    have hlt : port < last := by
      rw [UInt16.lt_iff_toNat_lt]
      omega
    have hsucc := toNat_succ_of_lt hlt
    by_cases hfree : pm.getPortQueue port = none
    · rw [registerFrom_free hlt hfree]
      exact .free port (UInt16.le_refl port) hlt hfree
    · rw [registerFrom_owned hlt hfree]
      have hnext := ih (port + 1) (by omega)
      generalize pm.registerFrom applicationQueue last (port + 1) = result at hnext
      cases hnext with
      | free found hle hfound hnone =>
        refine .free found ?_ hfound hnone
        rw [UInt16.le_iff_toNat_le] at hle ⊢
        omega
      | full howned =>
        apply Finds.full
        intro owned hle hbelow
        by_cases heq : owned = port
        · exact heq ▸ hfree
        · apply howned owned ?_ hbelow
          have hne : owned.toNat ≠ port.toNat := fun h => heq (UInt16.toNat_inj.mp h)
          rw [UInt16.le_iff_toNat_le] at hle ⊢
          omega

/-- Where the start position is in its range. -/
def InRange (pm : CPortmap κ) : Prop :=
  40000 ≤ pm.m_ephemeralPort.toNat ∧ pm.m_ephemeralPort.toNat ≤ 65535

/-- A port in `40000..65534` is an ephemeral port. -/
def Ephemeral (port : UInt16) : Prop := 40000 ≤ port.toNat ∧ port.toNat ≤ 65534

/-- Ephemeral ports begin at 40000. -/
theorem toNat_beginEphemeralPort : beginEphemeralPort.toNat = 40000 := by decide

/-- Behind an ephemeral port the search goes on with the next one. -/
theorem nextEphemeralPort_of_ephemeral {port : UInt16} (h : Ephemeral port) :
    (nextEphemeralPort port).toNat = port.toNat + 1 := by
  obtain ⟨-, hle⟩ := h
  have hlt : port < 65535 := by
    rw [UInt16.lt_iff_toNat_lt]
    have hlast : (65535 : UInt16).toNat = 65535 := rfl
    omega
  rw [nextEphemeralPort, if_neg (by omega), toNat_succ_of_lt hlt]

/-- What a call of `getEphemeralPort` does. -/
inductive Allocates (applicationQueue : κ) (pm : CPortmap κ) : UInt16 × CPortmap κ → Prop
  | port (port : UInt16) (hephemeral : Ephemeral port) (hfree : pm.getPortQueue port = none) :
      Allocates applicationQueue pm (port,
        ⟨pm.mapPorts.insert port applicationQueue, nextEphemeralPort port⟩)
  | full (howned : ∀ port, Ephemeral port → pm.getPortQueue port ≠ none) :
      Allocates applicationQueue pm (0, pm)

/-- The range of the first loop. -/
theorem InRange.upper (h : pm.InRange) {port : UInt16} (hle : pm.m_ephemeralPort ≤ port)
    (hlt : port < 65535) : Ephemeral port := by
  obtain ⟨hbegin, -⟩ := h
  have hlast : (65535 : UInt16).toNat = 65535 := by decide
  rw [UInt16.le_iff_toNat_le] at hle
  rw [UInt16.lt_iff_toNat_lt] at hlt
  exact ⟨by omega, by omega⟩

/-- The range of the second loop. -/
theorem InRange.lower (h : pm.InRange) {port : UInt16} (hle : beginEphemeralPort ≤ port)
    (hlt : port < pm.m_ephemeralPort) : Ephemeral port := by
  obtain ⟨-, hend⟩ := h
  have hstart := toNat_beginEphemeralPort
  rw [UInt16.le_iff_toNat_le] at hle
  rw [UInt16.lt_iff_toNat_lt] at hlt
  exact ⟨by omega, by omega⟩

/-- Every ephemeral port is in the range of one of the loops. -/
theorem Ephemeral.lower_or_upper {port : UInt16} (h : Ephemeral port) (start : UInt16) :
    (beginEphemeralPort ≤ port ∧ port < start) ∨ (start ≤ port ∧ port < 65535) := by
  obtain ⟨hge, hle⟩ := h
  have hlast : (65535 : UInt16).toNat = 65535 := by decide
  have hstart := toNat_beginEphemeralPort
  simp only [UInt16.le_iff_toNat_le, UInt16.lt_iff_toNat_lt]
  omega

/-- If the first search finds nothing, the second one counts. -/
theorem searchPort_second {second : CPortmap κ → Option UInt16 × CPortmap κ} {port : UInt16}
    {pm' : CPortmap κ} (h : second pm = (some port, pm')) :
    searchPort (none, pm) second =
      (port, { pm' with m_ephemeralPort := nextEphemeralPort port }) := by
  simp only [searchPort, h]

/-- If neither search finds a port, the result is 0. -/
theorem searchPort_none {second : CPortmap κ → Option UInt16 × CPortmap κ} {pm' : CPortmap κ}
    (h : second pm = (none, pm')) : searchPort (none, pm) second = (0, pm') := by
  simp only [searchPort, h]

/-- From any start position the two loops together cover the whole range. -/
theorem getEphemeralPort_allocates (h : pm.InRange) (applicationQueue : κ) :
    Allocates applicationQueue pm (pm.getEphemeralPort applicationQueue) := by
  have habove := pm.registerFrom_finds applicationQueue 65535 pm.m_ephemeralPort
  have hbelow := pm.registerFrom_finds applicationQueue pm.m_ephemeralPort beginEphemeralPort
  rw [← registerAbove] at habove
  rw [← registerBelow] at hbelow
  rcases hfirst : pm.registerAbove applicationQueue with ⟨_ | found, pm₁⟩
  · rw [hfirst] at habove
    obtain ⟨hupper, rfl⟩ := habove.of_none
    rcases hsecond : pm₁.registerBelow applicationQueue with ⟨_ | found, pm₂⟩
    · rw [hsecond] at hbelow
      obtain ⟨hlower, rfl⟩ := hbelow.of_none
      rw [getEphemeralPort, hfirst, searchPort_none hsecond]
      apply Allocates.full
      intro port hephemeral
      rcases hephemeral.lower_or_upper pm₂.m_ephemeralPort with ⟨hle, hlt⟩ | ⟨hle, hlt⟩
      · exact hlower port hle hlt
      · exact hupper port hle hlt
    · rw [hsecond] at hbelow
      obtain ⟨hle, hlt, hfree, rfl⟩ := hbelow.of_some
      rw [getEphemeralPort, hfirst, searchPort_second hsecond]
      exact .port found (h.lower hle hlt) hfree
  · rw [hfirst] at habove
    obtain ⟨hle, hlt, hfree, rfl⟩ := habove.of_some
    rw [getEphemeralPort, hfirst]
    exact .port found (h.upper hle hlt) hfree

/-- The calls that application queues make, one at a time. -/
inductive Call (κ : Type)
  | registerPort (port : UInt16) (applicationQueue : κ)
  | getEphemeralPort (applicationQueue : κ)
  | unregisterPort (port : UInt16)
  | freePorts (applicationQueue : κ)

variable [DecidableEq κ]

/-- The port map after a call. -/
def apply (pm : CPortmap κ) : Call κ → CPortmap κ
  | .registerPort port applicationQueue => (pm.registerPort port applicationQueue).2
  | .getEphemeralPort applicationQueue => (pm.getEphemeralPort applicationQueue).2
  | .unregisterPort port => (pm.unregisterPort port).2
  | .freePorts applicationQueue => pm.freePorts applicationQueue

/-- The calls that take a port from its owner. -/
def Call.Releases (port : UInt16) (owner : κ) : Call κ → Prop
  | .registerPort _ _ => False
  | .getEphemeralPort _ => False
  | .unregisterPort released => released = port
  | .freePorts applicationQueue => applicationQueue = owner

/-- No call moves the start position out of its range. -/
theorem InRange.step (h : pm.InRange) (call : Call κ) : (pm.apply call).InRange := by
  cases call with
  | registerPort port applicationQueue =>
    change (pm.registerPort port applicationQueue).2.InRange
    unfold registerPort
    split
    · exact h
    · exact h
  | getEphemeralPort applicationQueue =>
    have hallocates := getEphemeralPort_allocates h applicationQueue
    change (pm.getEphemeralPort applicationQueue).2.InRange
    generalize pm.getEphemeralPort applicationQueue = result at hallocates ⊢
    cases hallocates with
    | port port hephemeral hfree =>
      have hnext := nextEphemeralPort_of_ephemeral hephemeral
      obtain ⟨hge, hle⟩ := hephemeral
      exact ⟨by simp only [hnext]; omega, by simp only [hnext]; omega⟩
    | full howned => exact h
  | unregisterPort port => exact h
  | freePorts applicationQueue => exact h

/-- A port keeps its owner over every call that does not release it. -/
theorem InRange.keeps (h : pm.InRange) {port : UInt16} {owner : κ}
    (howner : pm.getPortQueue port = some owner) {call : Call κ}
    (hkeeps : ¬ call.Releases port owner) : (pm.apply call).getPortQueue port = some owner := by
  cases call with
  | registerPort other applicationQueue =>
    have hother : ¬ (port = other ∧ pm.getPortQueue other = none) := by
      rintro ⟨rfl, hfree⟩
      rw [howner] at hfree
      cases hfree
    simp only [CPortmap.apply, getPortQueue_registerPort, if_neg hother, howner]
  | getEphemeralPort applicationQueue =>
    have hallocates := getEphemeralPort_allocates h applicationQueue
    change (pm.getEphemeralPort applicationQueue).2.getPortQueue port = some owner
    generalize pm.getEphemeralPort applicationQueue = result at hallocates ⊢
    cases hallocates with
    | port other hephemeral hfree =>
      have hne : port ≠ other := by
        rintro rfl
        rw [howner] at hfree
        cases hfree
      rw [getPortQueue_insert, if_neg hne, howner]
    | full howned => exact howner
  | unregisterPort other =>
    have hne : port ≠ other := fun heq => hkeeps heq.symm
    simp only [CPortmap.apply, getPortQueue_unregisterPort, if_neg hne, howner]
  | freePorts applicationQueue =>
    have hne : ¬ some owner = some applicationQueue := fun heq =>
      hkeeps (Option.some.inj heq).symm
    simp only [CPortmap.apply, getPortQueue_freePorts, howner, if_neg hne]

/-- What holds of the port map between two calls. -/
structure Sound (pm : CPortmap κ) : Prop where
  range : 40000 ≤ pm.m_ephemeralPort.toNat ∧ pm.m_ephemeralPort.toNat ≤ 65535
  /-- Over any further calls a port keeps its owner until one of them releases it. -/
  keeps : ∀ port owner, pm.getPortQueue port = some owner → ∀ calls : List (Call κ),
    (∀ call ∈ calls, ¬ call.Releases port owner) →
      (calls.foldl apply pm).getPortQueue port = some owner
  /-- A registration gives a free port to the queue. It is refused, and nothing changes, if
  the port has an owner. -/
  registers : ∀ port applicationQueue,
    ((pm.registerPort port applicationQueue).1 = true ↔ pm.getPortQueue port = none) ∧
    (pm.getPortQueue port = none → ∀ other,
      (pm.registerPort port applicationQueue).2.getPortQueue other =
        if other = port then some applicationQueue else pm.getPortQueue other) ∧
    (pm.getPortQueue port ≠ none → (pm.registerPort port applicationQueue).2 = pm)
  /-- A port given back has no owner, whoever had it, and all other ports stay as they are. -/
  unregisters : ∀ port,
    ((pm.unregisterPort port).1 = true ↔ pm.getPortQueue port ≠ none) ∧
    ∀ other, (pm.unregisterPort port).2.getPortQueue other =
      if other = port then none else pm.getPortQueue other
  freePorts : ∀ applicationQueue port, (pm.freePorts applicationQueue).getPortQueue port =
    if pm.getPortQueue port = some applicationQueue then none else pm.getPortQueue port
  /-- An ephemeral port was free, and all other ports stay as they are. -/
  allocates : ∀ applicationQueue,
    let (port, pm') := pm.getEphemeralPort applicationQueue
    (Ephemeral port ∧ pm.getPortQueue port = none ∧ ∀ other, pm'.getPortQueue other =
      if other = port then some applicationQueue else pm.getPortQueue other) ∨
    (port = 0 ∧ pm' = pm)
  exhausted : ∀ applicationQueue, (pm.getEphemeralPort applicationQueue).1 = 0 ↔
    ∀ port, Ephemeral port → pm.getPortQueue port ≠ none

/-- After any calls the search begins in range. -/
theorem InRange.run (h : pm.InRange) (calls : List (Call κ)) : (calls.foldl apply pm).InRange := by
  induction calls generalizing pm with
  | nil => exact h
  | cons call calls ih => exact ih (h.step call)

/-- A port stays with its owner as long as no call releases it. -/
theorem InRange.keeps_run (h : pm.InRange) {port : UInt16} {owner : κ}
    (howner : pm.getPortQueue port = some owner) {calls : List (Call κ)}
    (hkeeps : ∀ call ∈ calls, ¬ call.Releases port owner) :
    (calls.foldl apply pm).getPortQueue port = some owner := by
  induction calls generalizing pm with
  | nil => exact howner
  | cons call calls ih =>
    have hfirst := h.keeps howner (hkeeps call List.mem_cons_self)
    exact ih (h.step call) hfirst fun call' hcall => hkeeps call' (List.mem_cons_of_mem call hcall)

/-- What every call does, from a port map whose search begins in range. -/
theorem InRange.sound (h : pm.InRange) : pm.Sound := by
  refine ⟨h, fun port owner howner calls hkeeps => h.keeps_run howner hkeeps, ?_,
    fun port => ⟨Option.isSome_iff_ne_none, fun other => getPortQueue_unregisterPort port other⟩,
    fun applicationQueue port => getPortQueue_freePorts applicationQueue port, ?_, ?_⟩
  · intro port applicationQueue
    refine ⟨registerPort_fst_iff port applicationQueue, ?_, ?_⟩
    · intro hfree other
      rw [registerPort_free hfree, getPortQueue_insert]
    · intro howned
      obtain ⟨owner, howner⟩ := Option.ne_none_iff_exists'.mp howned
      rw [registerPort_owned howner]
  · intro applicationQueue
    have hallocates := getEphemeralPort_allocates h applicationQueue
    generalize pm.getEphemeralPort applicationQueue = result at hallocates ⊢
    cases hallocates with
    | port port hephemeral hfree =>
      exact Or.inl ⟨hephemeral, hfree, fun other => getPortQueue_insert port other _ _⟩
    | full howned => exact Or.inr ⟨rfl, rfl⟩
  · intro applicationQueue
    have hallocates := getEphemeralPort_allocates h applicationQueue
    generalize pm.getEphemeralPort applicationQueue = result at hallocates ⊢
    cases hallocates with
    | port port hephemeral hfree =>
      have hne : port ≠ 0 := by
        rintro rfl
        exact absurd hephemeral.1 (by decide)
      exact iff_of_false hne fun howned => howned port hephemeral hfree
    | full howned => exact iff_of_true rfl howned

/-- After any calls of any application queues, in any order, ports are allocated from
the free ones and taken only from those who release them. -/
theorem sound_of_calls (calls : List (Call κ)) : (calls.foldl apply create).Sound := by
  have hcreate : (create : CPortmap κ).InRange := by
    change 40000 ≤ beginEphemeralPort.toNat ∧ beginEphemeralPort.toNat ≤ 65535
    rw [toNat_beginEphemeralPort]
    omega
  exact (hcreate.run calls).sound

end CPortmap

end San2.Node
