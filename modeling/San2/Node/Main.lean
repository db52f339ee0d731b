import Mathlib.Order.Interval.Finset.Nat
import San2.Crypto.Datagram
import San2.Utils.Address
import San2.Utils.ConfigFile

/-!
# The program of a node

`main` reads the configuration file and adds an interface for each of the peers 1, 2, 3
and so on, up to the first one that lacks an entry. A peer whose interface address cannot
be read is passed over. The numbers are bounded by nothing but the file: the loop ends
because a file has no entries for peer after peer without end.
-/

namespace San2.Node.Main

open Utils Utils.Config Network DragonSRP TextLines

/-- The arguments of a new `CTcpInterface` that come from the file. -/
structure InterfaceConfig where
  ifAddress : SanAddress
  localIp : Bytes
  localPort : Bytes
  remoteIp : Bytes
  remotePort : Bytes
  deriving DecidableEq

/-- `int2string` -/
def int2string (x : ℕ) : Bytes := string2bytes (toString x)

/-- `getKeyTextString` -/
def getKeyTextString (x : ℕ) (key : Bytes) : Bytes :=
  string2bytes "peer." ++ int2string x ++ string2bytes "." ++ key

/-- `getPeerConfig` -/
def getPeerConfig (cfg : ConfigFile) (x : ℕ) (key : Bytes) : Bytes :=
  cfg.getValue (getKeyTextString x key)

/-- The loop from peer `i` on, with the variable `sanaddr`, until it breaks. The source counts in
an `int`, here it is a natural number. The loop goes no further than one behind the number of
lines, see `exists_last_peer`, so the two agree for a file of fewer than 2³¹ - 1 lines. -/
def readPeers (cfg : ConfigFile) : ℕ → ℕ → SanAddress → Option (List InterfaceConfig)
  | 0, _, _ => none
  | fuel + 1, i, sanaddr =>
    let ifAddress := getPeerConfig cfg i (string2bytes "ifAddress")
    let localIp := getPeerConfig cfg i (string2bytes "localIp")
    let localPort := getPeerConfig cfg i (string2bytes "localPort")
    let remoteIp := getPeerConfig cfg i (string2bytes "remoteIp")
    let remotePort := getPeerConfig cfg i (string2bytes "remotePort")
    if ifAddress = [] ∨ localIp = [] ∨ localPort = [] ∨ remoteIp = [] ∨ remotePort = [] then
      some []
    else
      match string2address ifAddress sanaddr with
      | (false, sanaddr) => readPeers cfg fuel (i + 1) sanaddr
      | (true, sanaddr) => (readPeers cfg fuel (i + 1) sanaddr).map fun rest =>
          ⟨sanaddr, localIp, localPort, remoteIp, remotePort⟩ :: rest

/-- What `main` sets up before it starts the node. -/
structure NodeConfig where
  nodeName : Bytes
  ipcAddress : Bytes
  apiAddress : Bytes
  interfaces : List InterfaceConfig

/-- `main` up to `node.start`, or the value that it returns. A loop that does not break leaves
nothing. -/
def configure (file : Option Bytes) (fuel : ℕ) (sanaddr : SanAddress) :
    Option (Except ℤ NodeConfig) :=
  match ConfigFile.create.load file true with
  | (false, _) => some (.error (-1))
  | (true, cfg) =>
    let ipcAddress := cfg.getValue (string2bytes "ipcAddress")
    let apiAddress := cfg.getValue (string2bytes "apiAddress")
    if ipcAddress = [] then some (.error (-2))
    else (readPeers cfg fuel 1 sanaddr).map fun interfaces =>
      .ok ⟨cfg.getValue (string2bytes "nodeName"), ipcAddress, apiAddress, interfaces⟩

/-- The characters of a number are digits. -/
theorem toNat_digit {c : Char} {x : ℕ} (hc : c ∈ (toString x).toList) :
    48 ≤ c.toNat ∧ c.toNat ≤ 57 := by
  rw [Nat.toString_eq_ofList_toDigits, String.toList_ofList] at hc
  have hdigit := Nat.isDigit_of_mem_toDigits (by decide) (by decide) hc
  simpa [Char.isDigit, UInt32.le_iff_toNat_le] using hdigit

/-- A digit is a byte. -/
theorem toNat_ofNat_digit {c : Char} {x : ℕ} (hc : c ∈ (toString x).toList) :
    (UInt8.ofNat c.toNat).toNat = c.toNat := by
  obtain ⟨-, hle⟩ := toNat_digit hc
  have hsize : UInt8.size = 256 := rfl
  exact UInt8.toNat_ofNat_of_lt' (by omega)

/-- A digit has no small letter. -/
theorem tolower_digit {c : UInt8} (h : c.toNat ≤ 57) : tolower c = c := by
  unfold tolower
  have hnot : ¬(0x41 ≤ c ∧ c ≤ 0x5A) := by
    rintro ⟨hle, -⟩
    rw [UInt8.le_iff_toNat_le] at hle
    have hletter : (0x41 : UInt8).toNat = 65 := rfl
    omega
  rw [if_neg hnot]

/-- A number is not changed by small letters. -/
theorem map_tolower_int2string (x : ℕ) : (int2string x).map tolower = int2string x := by
  unfold int2string string2bytes
  rw [List.map_map]
  refine List.map_congr_left fun c hc => ?_
  obtain ⟨-, hle⟩ := toNat_digit hc
  exact tolower_digit (by rw [toNat_ofNat_digit hc]; exact hle)

/-- The number can be read off its text. -/
theorem int2string_injective : Function.Injective int2string := by
  intro x y h
  have htext : ∀ z, (int2string z).map UInt8.toNat = (Nat.toDigits 10 z).map Char.toNat := by
    intro z
    unfold int2string string2bytes
    rw [List.map_map, ← @String.toList_ofList (Nat.toDigits 10 z),
      ← Nat.toString_eq_ofList_toDigits]
    exact List.map_congr_left fun c hc => toNat_ofNat_digit hc
  have hdigits : Nat.toDigits 10 x = Nat.toDigits 10 y := by
    have hchar : Function.Injective Char.toNat := fun a b => Char.toNat_inj.mp
    apply List.map_injective_iff.mpr hchar
    rw [← htext x, ← htext y, h]
  rw [← @Nat.ofDigitChars_ten_toDigits x, ← @Nat.ofDigitChars_ten_toDigits y, hdigits]

/-- No two peers share an entry, whatever letters are capitals. -/
theorem getKeyTextString_injective (key : Bytes) :
    Function.Injective fun x => (getKeyTextString x key).map tolower := by
  intro x y h
  dsimp only [getKeyTextString] at h
  simp only [List.map_append, List.append_assoc, map_tolower_int2string] at h
  exact int2string_injective (List.append_cancel_right (List.append_cancel_left h))

/-- The lines of a file. -/
def fileLines (content : Bytes) : List Bytes := lines 0x0A content

/-- The entries of a peer. -/
def peerKeys : List Bytes :=
  ["ifAddress", "localIp", "localPort", "remoteIp", "remotePort"].map string2bytes

/-- The lines assign something to each of the entries of peer `i`. -/
def Complete (ls : List Bytes) (i : ℕ) : Prop :=
  ∀ key ∈ peerKeys, lastValue ls (getKeyTextString i key) ≠ []

/-- Whether a peer is complete can be computed. -/
instance (ls : List Bytes) (i : ℕ) : Decidable (Complete ls i) :=
  inferInstanceAs (Decidable (∀ key ∈ peerKeys, _))

/-- The interface that the entries of peer `i` describe. -/
def described (ls : List Bytes) (i : ℕ) : Option InterfaceConfig :=
  let entry key := lastValue ls (getKeyTextString i (string2bytes key))
  if AllHex (entry "ifAddress") ∧
      ((entry "ifAddress").length = 63 ∨ (entry "ifAddress").length = 64) then
    some ⟨addressOfNumber (hexValue (entry "ifAddress")), entry "localIp", entry "localPort",
      entry "remoteIp", entry "remotePort"⟩
  else none

/-- A peer is incomplete if one of its five entries is empty. -/
theorem complete_iff {ls : List Bytes} {i : ℕ} :
    ¬Complete ls i ↔
      lastValue ls (getKeyTextString i (string2bytes "ifAddress")) = [] ∨
        lastValue ls (getKeyTextString i (string2bytes "localIp")) = [] ∨
        lastValue ls (getKeyTextString i (string2bytes "localPort")) = [] ∨
        lastValue ls (getKeyTextString i (string2bytes "remoteIp")) = [] ∨
        lastValue ls (getKeyTextString i (string2bytes "remotePort")) = [] := by
  unfold Complete peerKeys
  simp only [List.map_cons, List.map_nil, List.forall_mem_cons, List.not_mem_nil,
    false_imp_iff, implies_true, and_true, ne_eq, not_and_or, not_not]

/-- Each complete peer has a line of its own. -/
theorem complete_le {ls : List Bytes} {n : ℕ} (h : ∀ i, 1 ≤ i → i ≤ n → Complete ls i) :
    n ≤ ls.length := by
  let key (i : ℕ) := (getKeyTextString i (string2bytes "ifAddress")).map tolower
  have hsub : (Finset.Icc 1 n).image key ⊆ (ls.map keyOf).toFinset := by
    intro k hk
    obtain ⟨i, hi, rfl⟩ := Finset.mem_image.mp hk
    obtain ⟨hfirst, hlast⟩ := Finset.mem_Icc.mp hi
    have hvalue := h i hfirst hlast (string2bytes "ifAddress") (List.mem_cons_self ..)
    unfold lastValue at hvalue
    cases hfind : ls.reverse.find? fun line => IsAssignment line ∧ keyOf line = key i with
    | none => exact absurd (by rw [hfind]; rfl) hvalue
    | some line =>
      have hline := List.mem_reverse.mp (List.mem_of_find?_eq_some hfind)
      have hkey := List.find?_some hfind
      rw [decide_eq_true_eq] at hkey
      exact List.mem_toFinset.mpr (List.mem_map.mpr ⟨line, hline, hkey.2⟩)
  have hcard := Finset.card_le_card hsub
  rw [Finset.card_image_of_injective _ (getKeyTextString_injective _), Nat.card_Icc] at hcard
  have hlines := List.toFinset_card_le (ls.map keyOf)
  rw [List.length_map] at hlines
  omega

/-- The complete peers come to an end. -/
theorem exists_last_peer (ls : List Bytes) :
    ∃ n ≤ ls.length, (∀ i, 1 ≤ i → i ≤ n → Complete ls i) ∧ ¬Complete ls (n + 1) := by
  have hsome : ∃ n, ¬Complete ls (n + 1) := by
    by_contra hall
    push Not at hall
    have hle := @complete_le ls (ls.length + 1) fun i hi _ => by
      obtain ⟨j, rfl⟩ := Nat.exists_eq_add_of_le' hi
      exact hall j
    omega
  have hbefore : ∀ i, 1 ≤ i → i ≤ Nat.find hsome → Complete ls i := by
    intro i hi hle
    obtain ⟨j, rfl⟩ := Nat.exists_eq_add_of_le' hi
    exact not_not.mp (Nat.find_min hsome hle)
  exact ⟨Nat.find hsome, complete_le hbefore, hbefore, Nat.find_spec hsome⟩

section

variable {cfg : ConfigFile} {ls : List Bytes} (hvalue : ∀ key, cfg.getValue key = lastValue ls key)
include hvalue

/-- At an incomplete peer the loop breaks. -/
theorem readPeers_incomplete {i : ℕ} (h : ¬Complete ls i) (fuel : ℕ) (sanaddr : SanAddress) :
    readPeers cfg (fuel + 1) i sanaddr = some [] := by
  rw [complete_iff] at h
  simp only [← hvalue] at h
  unfold readPeers getPeerConfig
  exact if_pos h

/-- The address that the variable has before does not matter. -/
theorem readPeers_complete {i : ℕ} (h : Complete ls i) (fuel : ℕ) (sanaddr : SanAddress) :
    ∃ sanaddr', readPeers cfg (fuel + 1) i sanaddr =
      (readPeers cfg fuel (i + 1) sanaddr').map fun rest =>
        (described ls i).toList ++ rest := by
  have hcomplete := (not_congr (@complete_iff ls i)).mp (not_not.mpr h)
  simp only [← hvalue] at hcomplete
  have hstep : readPeers cfg (fuel + 1) i sanaddr = _ := if_neg hcomplete
  rw [string2address_eq] at hstep
  unfold getPeerConfig at hstep
  simp only [hvalue] at hstep
  unfold described
  dsimp only
  split_ifs at hstep ⊢ with haddress
  · exact ⟨_, hstep⟩
  · exact ⟨sanaddr, hstep.trans Option.map_id'.symm⟩

/-- The loop reads the peers in front of the first incomplete one. -/
theorem readPeers_eq (fuel n : ℕ) {start : ℕ} (sanaddr : SanAddress)
    (hcomplete : ∀ i, start ≤ i → i < start + n → Complete ls i)
    (hstop : ¬Complete ls (start + n)) :
    readPeers cfg fuel start sanaddr =
      if n < fuel then some ((List.range' start n).filterMap (described ls)) else none := by
  induction fuel generalizing start n sanaddr with
  | zero => rfl
  | succ fuel ih =>
    cases n with
    | zero =>
      rw [Nat.add_zero] at hstop
      rw [readPeers_incomplete hvalue hstop, if_pos fuel.succ_pos, List.range'_zero,
        List.filterMap_nil]
    | succ n =>
      have hfirst := hcomplete start le_rfl (by omega)
      obtain ⟨sanaddr', hread⟩ := readPeers_complete hvalue hfirst fuel sanaddr
      have hrest := @ih n (start + 1) sanaddr' (fun i hi hlt => hcomplete i (by omega) (by omega))
        (by rwa [Nat.add_right_comm])
      rw [hread, hrest, List.range'_succ, List.filterMap_cons]
      simp only [Nat.add_lt_add_iff_right]
      split_ifs
      · cases described ls start <;> rfl
      · rfl

end

/-- Strict parsing succeeds unless a line is bad. -/
theorem load_strict (content : Bytes) :
    (ConfigFile.create.load (some content) true).1 = true ↔
      ∀ line ∈ fileLines content, ¬Bad line := by
  change (ConfigFile.loadLines true (fileLines content) ConfigFile.create).1 = true ↔ _
  by_cases hbad : ∃ line ∈ fileLines content, Bad line
  · have hstopped := @loadLines_of_bad ConfigFile.create _ hbad []
    rw [List.append_nil] at hstopped
    rw [hstopped]
    refine iff_of_false Bool.false_ne_true fun hall => ?_
    obtain ⟨line, hline, h⟩ := hbad
    exact hall line hline h
  · have hgood : ∀ line ∈ fileLines content, ¬Bad line :=
      fun line hline h => hbad ⟨line, hline, h⟩
    rw [loadLines_of_all_good fun line hline h => hgood line hline h.1]
    exact iff_of_true rfl hgood

/-- `main` sets up the interfaces of the complete peers from 1 on whose address can be read,
in the order of their numbers. The first peer that lacks an entry hides all others. There are
no more peers than lines, so the loop ends. -/
theorem configure_eq (content : Bytes) :
    ∃ n ≤ (fileLines content).length,
      (∀ i, 1 ≤ i → i ≤ n → Complete (fileLines content) i) ∧
      ¬Complete (fileLines content) (n + 1) ∧
      ∀ fuel sanaddr, configure (some content) fuel sanaddr =
        if ∀ line ∈ fileLines content, ¬Bad line then
          if lastValue (fileLines content) (string2bytes "ipcAddress") = [] then
            some (.error (-2))
          else if n < fuel then
            some (.ok ⟨lastValue (fileLines content) (string2bytes "nodeName"),
              lastValue (fileLines content) (string2bytes "ipcAddress"),
              lastValue (fileLines content) (string2bytes "apiAddress"),
              (List.range' 1 n).filterMap (described (fileLines content))⟩)
          else none
        else some (.error (-1)) := by
  obtain ⟨n, hle, hcomplete, hstop⟩ := exists_last_peer (fileLines content)
  refine ⟨n, hle, hcomplete, hstop, fun fuel sanaddr => ?_⟩
  have hread := @getValue_of_load true content
  have hstrict := load_strict content
  unfold configure
  rcases hload : ConfigFile.create.load (some content) true with ⟨ok, cfg⟩
  rw [hload] at hread hstrict
  cases ok with
  | false => rw [if_neg fun hgood => Bool.false_ne_true (hstrict.mpr hgood)]
  | true =>
    have hvalue : ∀ key, cfg.getValue key = lastValue (fileLines content) key := hread rfl
    have hpeers := readPeers_eq hvalue fuel n sanaddr
      (fun i hfirst hlast => hcomplete i hfirst (by omega)) (by rwa [Nat.add_comm])
    rw [if_pos (hstrict.mp rfl)]
    dsimp only
    rw [hpeers, hvalue, hvalue, hvalue]
    split_ifs <;> rfl

end San2.Node.Main
