import San2.Crypto.Datagram
import San2.Crypto.SrpAuthentication
import San2.Library.FirstWrite
import San2.Library.TextLines
import San2.Utils.CStringUtils

/-!
# The users of a password file

A line of the password file names a user and has the salt and the verificator as hexadecimal
digits. `loadFromFile` trims a line before it looks at it, takes its fields out of a string stream
and adds the user to a map in which the first entry for a name stays.
-/

namespace San2.DragonSRP

open Utils

/-- The constructor of `User`. -/
def User.create (usrname verif sal : Bytes) : User :=
  { username := usrname, verificator := verif, salt := sal }

/-- `MemoryLookup`: the users by name, where the first insertion of a name wins. -/
structure MemoryLookup where
  db : AList fun _ : Bytes => User

namespace MemoryLookup

/-- `getByName` copies the user out, or throws `UserNotFoundException`. -/
def getByName (lookup : MemoryLookup) (username : Bytes) : Except SrpException User :=
  match lookup.db.lookup username with
  | none => throw (.userNotFound "User not found." username)
  | some user => return user

/-- `userAdd` answers whether the name was new. -/
def userAdd (user : User) (lookup : MemoryLookup) : Bool × MemoryLookup :=
  let (inserted, db) := FirstWrite.insert user.username user lookup.db
  (inserted, { lookup with db := db })

/-- `clearDb` drops every user. -/
def clearDb (lookup : MemoryLookup) : MemoryLookup := { lookup with db := ∅ }

end MemoryLookup

end San2.DragonSRP

namespace San2.Shell.PasswordLoader

open Utils DragonSRP TextLines

/-- `iss >> field`: what comes next in the stream up to a blank. -/
def readField (iss : Bytes) : Option (Bytes × Bytes) :=
  match iss.dropWhile isspace with
  | [] => none
  | c :: rest => some ((c :: rest).takeWhile (fun d => !isspace d),
      (c :: rest).dropWhile fun d => !isspace d)

/-- `iss >> srpUser >> srpSalt >> srpVerificator` -/
def readFields (iss : Bytes) : Option (Bytes × Bytes × Bytes) := do
  let (srpUser, iss) ← readField iss
  let (srpSalt, iss) ← readField iss
  let (srpVerificator, _) ← readField iss
  return (srpUser, srpSalt, srpVerificator)

/-- The variables of the loop over the lines. -/
structure Loading where
  userCount : ℤ
  lookup : MemoryLookup

/-- The end of a turn: the user of the fields is added. The function returns an error, or has no
result if `userCount` overflows. -/
def addFields (srpUser srpSalt srpVerificator : Bytes) (s : Loading) :
    Except (Option ℤ) Loading :=
  let (ok, bSrpSalt) := hexToBytes srpSalt
  if ok = false then throw (some (-3))
  else
    let (ok, bSrpVerificator) := hexToBytes srpVerificator
    if ok = false then throw (some (-4))
    else
      let usr := User.create srpUser bSrpVerificator bSrpSalt
      let (inserted, lookup) := s.lookup.userAdd usr
      if inserted then
        if s.userCount = 2147483647 then throw none
        else return ⟨s.userCount + 1, lookup⟩
      else return ⟨s.userCount, lookup⟩

/-- A turn of the loop. -/
def loadLine (line : Bytes) (s : Loading) : Except (Option ℤ) Loading :=
  let line := CStringUtils.trim line
  if line.length = 0 then return s
  else if (line)[0]? = some 0x23 then return s
  else
    match readFields line with
    | none => throw (some (-2))
    | some (srpUser, srpSalt, srpVerificator) => addFields srpUser srpSalt srpVerificator s

/-- The loop of `loadFromFile` over the lines left. The users added before a bad line stay. -/
def loadLines : List Bytes → Loading → Option ℤ × MemoryLookup
  | [], s => (some s.userCount, s.lookup)
  | line :: lines, s =>
    match loadLine line s with
    | .error code => (code, s.lookup)
    | .ok s => loadLines lines s

/-- `loadFromFile` on the contents of the file, if it can be read. -/
def loadFromFile (infile : Option Bytes) (loader : MemoryLookup) : Option ℤ × MemoryLookup :=
  let loader := loader.clearDb
  match infile with
  | none => (some (-1), loader)
  | some content => loadLines (lines 0x0A content) ⟨0, loader⟩

/-- The fields of a line. -/
def fields (line : Bytes) : List Bytes := words isspace line

/-- The line is neither blank nor a comment. -/
def significant (line : Bytes) : Bool :=
  match fields line with
  | [] => false
  | name :: _ => name.head? ≠ some 0x23

/-- A line has a name, a salt and a verificator, the last two as hexadecimal digits. -/
def WellFormed (line : Bytes) : Prop :=
  ∃ srpUser srpSalt srpVerificator rest,
    fields line = srpUser :: srpSalt :: srpVerificator :: rest ∧
      AllHex srpSalt ∧ AllHex srpVerificator

/-- The user of a line. -/
def userOf (line : Bytes) : User :=
  { username := (fields line).getD 0 []
    salt := (hexToBytes ((fields line).getD 1 [])).2
    verificator := (hexToBytes ((fields line).getD 2 [])).2 }

/-- The users of a file, in the order of their lines. -/
def users (content : Bytes) : List User := ((lines 0x0A content).filter significant).map userOf

section

variable {line : Bytes} {s : Loading}

/-- Trimming on the left leaves the fields of a line as they are. -/
theorem fields_ltrim (line : Bytes) : fields (CStringUtils.ltrim line) = fields line := by
  have hsplit := List.takeWhile_append_dropWhile (p := isspace) (l := line)
  unfold fields
  conv_rhs => rw [← hsplit]
  exact (words_blank_append (fun c hc => List.mem_takeWhile_imp hc) _).symm

/-- Trimming on the right leaves the fields of a line as they are. -/
theorem fields_rtrim (line : Bytes) : fields (CStringUtils.rtrim line) = fields line := by
  have hsplit := List.rdropWhile_append_rtakeWhile (p := isspace) (l := line)
  unfold fields
  conv_rhs => rw [← hsplit]
  exact (words_append_blank (fun c hc => List.mem_rtakeWhile_imp hc) _).symm

/-- Trimming leaves the fields as they are. -/
theorem fields_trim (line : Bytes) : fields (CStringUtils.trim line) = fields line :=
  (fields_ltrim _).trans (fields_rtrim line)

/-- A line without fields trims to nothing, so the loader skips it. -/
theorem trim_of_fields_nil (h : fields line = []) : CStringUtils.trim line = [] := by
  have hblank : ∀ c ∈ line, isspace c = true := words_eq_nil_iff.mp h
  have hright : CStringUtils.rtrim line = [] := List.rdropWhile_eq_nil_iff.mpr hblank
  unfold CStringUtils.trim
  rw [hright]
  rfl

/-- A line that is not blank begins with its first field. -/
theorem head?_trim {name : Bytes} {rest : List Bytes} (h : fields line = name :: rest) :
    ∃ c text, CStringUtils.trim line = c :: text ∧ name.head? = some c := by
  have hleft : CStringUtils.trim line =
      (CStringUtils.rtrim line).dropWhile isspace := rfl
  cases htrim : (CStringUtils.rtrim line).dropWhile isspace with
  | nil =>
    have hnone := fields_trim line
    rw [hleft, htrim, h] at hnone
    cases hnone
  | cons c text =>
    have hc : isspace c = false := of_dropWhile_eq_cons htrim
    have hwords : fields (CStringUtils.rtrim line) = _ := words_eq_cons htrim
    rw [fields_rtrim, h] at hwords
    refine ⟨c, text, hleft.trans htrim, ?_⟩
    rw [(List.cons.inj hwords).1, List.takeWhile_cons_of_pos (by rw [hc]; rfl), List.head?_cons]

/-- Reading with `>>` takes the first field and leaves a line with the other ones. -/
theorem readField_of_fields {name : Bytes} {rest : List Bytes} (h : fields line = name :: rest) :
    ∃ iss, readField line = some (name, iss) ∧ fields iss = rest := by
  unfold readField
  cases hline : line.dropWhile isspace with
  | nil =>
    have hblank : fields line = [] := words_eq_nil_iff.mpr (List.dropWhile_eq_nil_iff.mp hline)
    rw [hblank] at h
    cases h
  | cons c text =>
    have hwords : fields line = _ := words_eq_cons hline
    rw [h] at hwords
    obtain ⟨hname, hrest⟩ := List.cons.inj hwords
    rw [hname]
    exact ⟨_, rfl, hrest.symm⟩

/-- On a line without fields `>>` fails. -/
theorem readField_of_fields_nil (h : fields line = []) : readField line = none := by
  unfold readField
  rw [List.dropWhile_eq_nil_iff.mpr (words_eq_nil_iff.mp h)]

/-- Three fields are read if there are as many. -/
theorem readFields_of_fields {srpUser srpSalt srpVerificator : Bytes} {rest : List Bytes}
    (h : fields line = srpUser :: srpSalt :: srpVerificator :: rest) :
    readFields line = some (srpUser, srpSalt, srpVerificator) := by
  obtain ⟨iss, hread, hiss⟩ := readField_of_fields h
  obtain ⟨iss', hread', hiss'⟩ := readField_of_fields hiss
  obtain ⟨iss'', hread'', -⟩ := readField_of_fields hiss'
  unfold readFields
  rw [hread, Option.bind_eq_bind, Option.bind_some]
  dsimp only
  rw [hread', Option.bind_some]
  dsimp only
  rw [hread'']
  rfl

/-- On a line of less than three fields one of the three readings fails. -/
theorem readFields_of_short (h : (fields line).length < 3) : readFields line = none := by
  unfold readFields
  rcases hfields : fields line with _ | ⟨srpUser, rest⟩
  · rw [readField_of_fields_nil hfields]
    rfl
  obtain ⟨iss, hread, hiss⟩ := readField_of_fields hfields
  rw [hread, Option.bind_eq_bind, Option.bind_some]
  dsimp only
  rcases rest with _ | ⟨srpSalt, rest⟩
  · rw [readField_of_fields_nil hiss]
    rfl
  obtain ⟨iss', hread', hiss'⟩ := readField_of_fields hiss
  rw [hread', Option.bind_some]
  dsimp only
  rcases rest with _ | ⟨srpVerificator, rest⟩
  · rw [readField_of_fields_nil hiss']
    rfl
  · rw [hfields, List.length_cons, List.length_cons, List.length_cons] at h
    omega

/-- Blank lines and comments are skipped. -/
theorem loadLine_of_not_significant (h : significant line = false) : loadLine line s = .ok s := by
  unfold loadLine
  dsimp only
  cases hfields : fields line with
  | nil =>
    rw [trim_of_fields_nil hfields, if_pos List.length_nil]
    rfl
  | cons name rest =>
    obtain ⟨c, text, htrim, hname⟩ := head?_trim hfields
    have hcomment : name.head? = some 0x23 := by
      unfold significant at h
      rw [hfields] at h
      exact not_not.mp (of_decide_eq_false h)
    rw [htrim, if_neg (by simp), List.getElem?_cons_zero, ← hname, if_pos hcomment]
    rfl

/-- The fields of the other lines are read. -/
theorem loadLine_of_significant (h : significant line = true) :
    loadLine line s =
      (readFields (CStringUtils.trim line)).elim (.error (some (-2)))
        fun read => addFields read.1 read.2.1 read.2.2 s := by
  unfold loadLine
  cases hfields : fields line with
  | nil =>
    unfold significant at h
    rw [hfields] at h
    cases h
  | cons name rest =>
    obtain ⟨c, text, htrim, hname⟩ := head?_trim hfields
    have hcomment : name.head? ≠ some 0x23 := by
      unfold significant at h
      rw [hfields] at h
      exact of_decide_eq_true h
    rw [htrim]
    dsimp only
    rw [if_neg (by simp), List.getElem?_cons_zero, ← hname, if_neg hcomment]
    cases readFields (c :: text) with
    | none => rfl
    | some read => rfl

/-- A field that is not hexadecimal is an error. -/
theorem addFields_of_not_allHex {srpUser srpSalt srpVerificator : Bytes}
    (h : ¬(AllHex srpSalt ∧ AllHex srpVerificator)) :
    ∃ code < 0, addFields srpUser srpSalt srpVerificator s = .error (some code) := by
  unfold addFields
  dsimp only
  by_cases hsalt : AllHex srpSalt
  · have hverificator : (hexToBytes srpVerificator).1 = false :=
      Bool.eq_false_iff.mpr fun hok => h ⟨hsalt, (hexToBytes_iff _).mp hok⟩
    rw [if_neg (by rw [(hexToBytes_iff _).mpr hsalt]; decide), if_pos hverificator]
    exact ⟨-4, by decide, rfl⟩
  · have hsalt : (hexToBytes srpSalt).1 = false :=
      Bool.eq_false_iff.mpr fun hok => hsalt ((hexToBytes_iff _).mp hok)
    rw [if_pos hsalt]
    exact ⟨-3, by decide, rfl⟩

/-- The user is added, and counted if it is new. -/
theorem addFields_of_allHex {srpUser srpSalt srpVerificator : Bytes} (hsalt : AllHex srpSalt)
    (hverificator : AllHex srpVerificator) :
    addFields srpUser srpSalt srpVerificator s =
      let user := User.create srpUser (hexToBytes srpVerificator).2 (hexToBytes srpSalt).2
      if (s.lookup.userAdd user).1 then
        if s.userCount = 2147483647 then .error none
        else .ok ⟨s.userCount + 1, (s.lookup.userAdd user).2⟩
      else .ok ⟨s.userCount, (s.lookup.userAdd user).2⟩ := by
  unfold addFields
  dsimp only
  rw [if_neg (by rw [(hexToBytes_iff _).mpr hsalt]; decide),
    if_neg (by rw [(hexToBytes_iff _).mpr hverificator]; decide)]
  rfl

/-- `userCount` is the number of users in the map. -/
def Loading.Counts (s : Loading) : Prop := s.userCount = s.lookup.db.keys.length

/-- A line that is not skipped adds its user, or the function returns an error. -/
theorem loadLine_cases (h : significant line = true) :
    (∃ code < 0, loadLine line s = .error (some code)) ∨
      WellFormed line ∧
        loadLine line s =
          if (s.lookup.userAdd (userOf line)).1 then
            if s.userCount = 2147483647 then .error none
            else .ok ⟨s.userCount + 1, (s.lookup.userAdd (userOf line)).2⟩
          else .ok ⟨s.userCount, (s.lookup.userAdd (userOf line)).2⟩ := by
  rw [loadLine_of_significant h]
  rcases Nat.lt_or_ge (fields line).length 3 with hshort | hlong
  · rw [readFields_of_short (by rw [fields_trim]; exact hshort)]
    exact Or.inl ⟨-2, by decide, rfl⟩
  obtain ⟨srpUser, srpSalt, srpVerificator, rest, hfields⟩ :
      ∃ srpUser srpSalt srpVerificator rest,
        fields line = srpUser :: srpSalt :: srpVerificator :: rest := by
    rcases hfields : fields line with _ | ⟨srpUser, _ | ⟨srpSalt, _ | ⟨srpVerificator, rest⟩⟩⟩
    · rw [hfields] at hlong
      cases hlong
    · rw [hfields, List.length_singleton] at hlong
      omega
    · rw [hfields, List.length_cons, List.length_singleton] at hlong
      omega
    · exact ⟨srpUser, srpSalt, srpVerificator, rest, rfl⟩
  rw [readFields_of_fields ((fields_trim line).trans hfields), Option.elim_some]
  by_cases hhex : AllHex srpSalt ∧ AllHex srpVerificator
  · have huser : userOf line =
        User.create srpUser (hexToBytes srpVerificator).2 (hexToBytes srpSalt).2 := by
      unfold userOf
      rw [hfields]
      rfl
    right
    rw [huser]
    exact ⟨⟨srpUser, srpSalt, srpVerificator, rest, hfields, hhex⟩,
      addFields_of_allHex hhex.1 hhex.2⟩
  · exact Or.inl (addFields_of_not_allHex hhex)

/-- The map after a user has been added, who counts if the name is new. -/
theorem counts_userAdd (h : s.Counts) (user : User) :
    (s.lookup.userAdd user).2.db = (FirstWrite.insert user.username user s.lookup.db).2 ∧
      (if (s.lookup.userAdd user).1 then s.userCount + 1 else s.userCount) =
        (s.lookup.userAdd user).2.db.keys.length := by
  refine ⟨rfl, ?_⟩
  have hlength := @FirstWrite.length_keys_insert _ _ _ s.lookup.db user.username user
  unfold MemoryLookup.userAdd
  dsimp only
  rw [hlength, h]
  split_ifs
  · exact (Nat.cast_succ _).symm
  · rfl

/-- The induction is on the lines; every turn that goes on keeps the number of users. -/
theorem loadLines_returns {ls : List Bytes} {n : ℤ} {lookup : MemoryLookup}
    (h : loadLines ls s = (some n, lookup)) (hn : 0 ≤ n) (hcounts : s.Counts) :
    (∀ line ∈ ls, significant line = true → WellFormed line) ∧
      lookup.db = FirstWrite.fill
        (((ls.filter significant).map userOf).map fun user => (user.username, user))
        s.lookup.db ∧
      n = lookup.db.keys.length := by
  induction ls generalizing s with
  | nil =>
    obtain ⟨hcount, rfl⟩ := Prod.mk.inj h
    refine ⟨fun line hline => absurd hline List.not_mem_nil, rfl, ?_⟩
    rw [← Option.some.inj hcount]
    exact hcounts
  | cons line ls ih =>
    unfold loadLines at h
    cases hsignificant : significant line with
    | false =>
      rw [loadLine_of_not_significant hsignificant] at h
      obtain ⟨hlines, hdb, hcount⟩ := ih h hcounts
      refine ⟨?_, ?_, hcount⟩
      · intro other hother hsig
        rcases List.mem_cons.mp hother with rfl | hother
        · rw [hsignificant] at hsig
          cases hsig
        · exact hlines other hother hsig
      · rw [List.filter_cons_of_neg (by rw [hsignificant]; decide)]
        exact hdb
    | true =>
      obtain ⟨hdb, hlength⟩ := counts_userAdd hcounts (userOf line)
      rcases loadLine_cases (s := s) hsignificant with ⟨code, hcode, herror⟩ | ⟨hformed, hstep⟩
      · rw [herror] at h
        obtain ⟨hcode', -⟩ := Prod.mk.inj h
        have hnegative := Option.some.inj hcode'
        omega
      obtain ⟨s', hturn, hs'⟩ : ∃ s', loadLine line s = .ok s' ∧
          s' = ⟨if (s.lookup.userAdd (userOf line)).1 then s.userCount + 1 else s.userCount,
            (s.lookup.userAdd (userOf line)).2⟩ := by
        rw [hstep] at h ⊢
        split_ifs at h ⊢ with hnew hlimit
        · cases h
        · exact ⟨_, rfl, rfl⟩
        · exact ⟨_, rfl, rfl⟩
      rw [hturn] at h
      have hcounts' : s'.Counts := by
        rw [hs']
        exact hlength
      obtain ⟨hlines, hrest, hcount⟩ := ih h hcounts'
      refine ⟨?_, ?_, hcount⟩
      · intro other hother hsig
        rcases List.mem_cons.mp hother with rfl | hother
        · exact hformed
        · exact hlines other hother hsig
      · rw [List.filter_cons_of_pos hsignificant, List.map_cons, List.map_cons,
          FirstWrite.fill_cons, ← hdb, hrest, hs']

/-- The user of the first line that has a name. -/
def firstUser (content username : Bytes) : Option User :=
  (users content).find? fun user => user.username = username

/-- Where the first write wins, looking a name up finds the first user with it. -/
theorem first_users (users : List User) (username : Bytes) :
    FirstWrite.first (users.map fun user => (user.username, user)) username =
      users.find? fun user => user.username = username := by
  induction users with
  | nil => rfl
  | cons user users ih =>
    rw [List.map_cons, FirstWrite.first_cons, ih, List.find?_cons]
    split_ifs with hname
    · rw [decide_eq_true hname]
    · rw [decide_eq_false hname]

variable {content : Bytes} {loader lookup : MemoryLookup} {n : ℤ}

/-- After loading a file with no bad line, a name belongs to the first user of the file that has
it. -/
theorem lookup_loadFromFile (h : loadFromFile (some content) loader = (some n, lookup))
    (hn : 0 ≤ n) (username : Bytes) : lookup.db.lookup username = firstUser content username := by
  obtain ⟨-, hdb, -⟩ := loadLines_returns h hn rfl
  have hempty : loader.clearDb.db = ∅ := rfl
  rw [hdb, hempty, FirstWrite.lookup_fill, AList.lookup_empty, Option.none_or, first_users]
  rfl

/-- The count returned is the number of users stored, and that of the different names in the
file. -/
theorem count_loadFromFile (h : loadFromFile (some content) loader = (some n, lookup))
    (hn : 0 ≤ n) :
    (lookup.db.keys.length : ℤ) = n ∧
      n = (((users content).map User.username).dedup.length : ℤ) := by
  obtain ⟨-, hdb, hcount⟩ := loadLines_returns h hn rfl
  have hempty : loader.clearDb.db = ∅ := rfl
  refine ⟨hcount.symm, ?_⟩
  rw [hcount, hdb, hempty, FirstWrite.length_keys_fill, List.map_map]
  rfl

/-- `getByName` yields exactly the user stored under the name. -/
theorem getByName_eq_ok_iff (lookup : MemoryLookup) (username : Bytes) (user : User) :
    lookup.getByName username = .ok user ↔ lookup.db.lookup username = some user := by
  unfold MemoryLookup.getByName
  cases lookup.db.lookup username with
  | none => exact iff_of_false throw_ne_ok fun h => nomatch h
  | some held => exact ⟨fun h => congrArg some (Except.ok.inj h),
      fun h => congrArg Except.ok (Option.some.inj h)⟩

/-- `getByName` depends on nothing but what is stored under the name. -/
theorem getByName_congr {lookup lookup' : MemoryLookup} {username : Bytes}
    (h : lookup.db.lookup username = lookup'.db.lookup username) :
    lookup.getByName username = lookup'.getByName username := by
  unfold MemoryLookup.getByName
  rw [h]

/-- A name has a user if it is the name of one. -/
theorem firstUser_isSome (content username : Bytes) :
    (firstUser content username).isSome ↔ username ∈ (users content).map User.username := by
  unfold firstUser
  rw [List.find?_isSome, List.mem_map]
  simp only [decide_eq_true_eq]

/-- Blanks around a line do not matter. -/
theorem userOf_surrounded {before after : Bytes} (hbefore : ∀ c ∈ before, isspace c = true)
    (hafter : ∀ c ∈ after, isspace c = true) (line : Bytes) :
    significant (before ++ (line ++ after)) = significant line ∧
      userOf (before ++ (line ++ after)) = userOf line := by
  have hfields : fields (before ++ (line ++ after)) = fields line := by
    unfold fields
    rw [words_blank_append hbefore, words_append_blank hafter]
  unfold significant userOf
  rw [hfields]
  exact ⟨rfl, rfl⟩

/-- If the function returns a number of users, every line that is neither blank nor a comment is
well formed, the map holds that many users, one for each name, and the user of a name is the one
of the first line with it. Other files with the same first users give the same. -/
theorem loadFromFile_users (content : Bytes) (loader lookup : MemoryLookup) (n : ℤ)
    (h : loadFromFile (some content) loader = (some n, lookup)) (hn : 0 ≤ n) :
    (∀ line ∈ lines 0x0A content, significant line = true → WellFormed line) ∧
    (lookup.db.keys.length : ℤ) = n ∧
    n = (((users content).map User.username).dedup.length : ℤ) ∧
    (∀ username user, lookup.getByName username = .ok user ↔
      firstUser content username = some user) ∧
    (∀ username, username ∉ (users content).map User.username →
      lookup.getByName username = .error (.userNotFound "User not found." username)) ∧
    (∀ content' loader' lookup' n', loadFromFile (some content') loader' = (some n', lookup') →
      0 ≤ n' → (∀ username, firstUser content' username = firstUser content username) →
      n' = n ∧ ∀ username, lookup'.getByName username = lookup.getByName username) := by
  obtain ⟨hlength, hcount⟩ := count_loadFromFile h hn
  refine ⟨(loadLines_returns h hn rfl).1, hlength, hcount, ?_, ?_, ?_⟩
  · intro username user
    rw [getByName_eq_ok_iff, lookup_loadFromFile h hn]
  · intro username hname
    have hnone : lookup.db.lookup username = none := by
      rw [lookup_loadFromFile h hn]
      exact Option.not_isSome_iff_eq_none.mp (mt (firstUser_isSome content username).mp hname)
    unfold MemoryLookup.getByName
    rw [hnone]
    rfl
  · intro content' loader' lookup' n' h' hn' hfirst
    constructor
    · have hnames : ∀ username, username ∈ ((users content').map User.username).dedup ↔
          username ∈ ((users content).map User.username).dedup := by
        intro username
        rw [List.mem_dedup, List.mem_dedup, ← firstUser_isSome, ← firstUser_isSome, hfirst]
      have hperm :=
        (List.perm_ext_iff_of_nodup (List.nodup_dedup _) (List.nodup_dedup _)).mpr hnames
      rw [(count_loadFromFile h' hn').2, hcount, hperm.length_eq]
    · intro username
      refine getByName_congr ?_
      rw [lookup_loadFromFile h' hn', lookup_loadFromFile h hn, hfirst]

/-- A comment, a blank line and three lines, the last of which is a duplicate. -/
def smallFile : Bytes := string2bytes "# users\n \n  a 01 02 x\nb\t3 04\na 5 6"

/-- A file with a comment, a blank line, tabs and a name repeated loads two users, the first of
each name. -/
theorem loadFromFile_users_small :
    ∃ lookup, loadFromFile (some smallFile) ⟨∅⟩ = (some 2, lookup) ∧
      lookup.db.keys.length = 2 ∧
      lookup.getByName (string2bytes "a") = .ok ⟨string2bytes "a", [2], [1]⟩ ∧
      lookup.getByName (string2bytes "b") = .ok ⟨string2bytes "b", [4], [3]⟩ ∧
      lookup.getByName (string2bytes "c") =
        .error (.userNotFound "User not found." (string2bytes "c")) := by
  have hload : loadFromFile (some smallFile) ⟨∅⟩ =
      (some 2, (loadFromFile (some smallFile) ⟨∅⟩).2) := Prod.ext (by decide +kernel) rfl
  obtain ⟨-, hlength, -, hfound, hunknown, -⟩ :=
    loadFromFile_users smallFile ⟨∅⟩ _ 2 hload (by decide)
  exact ⟨_, hload, by exact_mod_cast hlength, (hfound _ _).mpr (by decide +kernel),
    (hfound _ _).mpr (by decide +kernel), hunknown _ (by decide +kernel)⟩

end

end San2.Shell.PasswordLoader
