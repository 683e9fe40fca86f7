import Mathlib.Data.List.Basic
import RecordStore.Fault
import RecordStore.Settings

/-! # Safe names

The name of a table goes into statements as it is, so it has to be safe. The check of identifiers
lets safe names through, and besides them those that have a line end after a shorter safe name.
-/

namespace RecordStore

def IsSafeChar (c : Char) : Prop :=
  'a' ≤ c ∧ c ≤ 'z' ∨ 'A' ≤ c ∧ c ≤ 'Z' ∨ '0' ≤ c ∧ c ≤ '9' ∨ c = '_'

/-- A name that can go into a statement as it is. -/
structure SafeName (name : String) : Prop where
  length_pos : 1 ≤ name.length
  length_le : name.length ≤ 64
  chars : ∀ c ∈ name.toList, IsSafeChar c
  first : ∀ c ∈ name.toList.head?, ¬ ('0' ≤ c ∧ c ≤ '9')

def SafeLine (name : String) : Prop :=
  ∃ stem, name = stem ++ "\n" ∧ SafeName stem ∧ stem.length < 64

theorem isAlpha_iff {c : Char} :
    c.isAlpha = true ↔ 'a' ≤ c ∧ c ≤ 'z' ∨ 'A' ≤ c ∧ c ≤ 'Z' := by
  have hupper : c.isUpper = true ↔ 'A' ≤ c ∧ c ≤ 'Z' := decide_eq_true_iff
  have hlower : c.isLower = true ↔ 'a' ≤ c ∧ c ≤ 'z' := by
    change (decide ('a' ≤ c) && decide (c ≤ 'z')) = true ↔ _
    rw [Bool.and_eq_true, decide_eq_true_iff, decide_eq_true_iff]
  have heither : c.isAlpha = true ↔ c.isUpper = true ∨ c.isLower = true := Bool.or_eq_true_iff
  rw [heither, hupper, hlower, or_comm]

theorem isDigit_iff {c : Char} : c.isDigit = true ↔ '0' ≤ c ∧ c ≤ '9' := by
  simp only [Char.isDigit, Bool.and_eq_true, decide_eq_true_eq, Char.le_def, ge_iff_le]

theorem isIdentifierPart_iff {c : Char} : isIdentifierPart c = true ↔ IsSafeChar c := by
  simp only [isIdentifierPart, Char.isAlphanum, Bool.or_eq_true, decide_eq_true_eq, isAlpha_iff,
    isDigit_iff, IsSafeChar, or_assoc]

theorem isIdentifierStart_iff {c : Char} :
    isIdentifierStart c = true ↔ IsSafeChar c ∧ ¬ ('0' ≤ c ∧ c ≤ '9') := by
  simp only [isIdentifierStart, Bool.or_eq_true, decide_eq_true_eq, isAlpha_iff, IsSafeChar]
  constructor
  · rintro ((h | h) | rfl)
    · refine ⟨.inl h, fun h' => ?_⟩
      exact absurd (Char.le_trans h.1 h'.2) (by decide)
    · refine ⟨.inr (.inl h), fun h' => ?_⟩
      exact absurd (Char.le_trans h.1 h'.2) (by decide)
    · exact ⟨.inr (.inr (.inr rfl)), by decide⟩
  · rintro ⟨h | h | h | h, hdigit⟩
    · exact .inl (.inl h)
    · exact .inl (.inr h)
    · exact (hdigit h).elim
    · exact .inr h

theorem not_isSafeChar_newline : ¬ IsSafeChar '\n' := by
  rw [← isIdentifierPart_iff]
  decide

/-- One line end in the last place makes no difference to the check of the characters. -/
theorem all_withoutFinalNewline_iff {cs : List Char} :
    (withoutFinalNewline cs).all isIdentifierPart = true ↔
      (∀ c ∈ cs, IsSafeChar c) ∨ ∃ stem, cs = stem ++ ['\n'] ∧ ∀ c ∈ stem, IsSafeChar c := by
  simp only [List.all_eq_true, isIdentifierPart_iff, withoutFinalNewline]
  split
  · next hlast =>
    obtain ⟨stem, rfl⟩ := List.getLast?_eq_some_iff.mp hlast
    rw [List.dropLast_concat]
    constructor
    · exact fun h => .inr ⟨stem, rfl, h⟩
    · rintro (h | ⟨stem', heq, h⟩)
      · exact fun c hc => h c (List.mem_append_left _ hc)
      · rwa [(List.append_singleton_inj.mp heq).1]
  · next hlast =>
    refine (or_iff_left ?_).symm
    rintro ⟨stem, rfl, -⟩
    exact hlast List.getLast?_concat

/-- What the check of the characters lets through. -/
def IsWord (cs : List Char) : Prop :=
  cs ≠ [] ∧ (∀ c ∈ cs, IsSafeChar c) ∧ ∀ c ∈ cs.head?, ¬ ('0' ≤ c ∧ c ≤ '9')

theorem isWord_cons_iff {c : Char} {rest : List Char} :
    IsWord (c :: rest) ↔ isIdentifierStart c = true ∧ ∀ d ∈ rest, IsSafeChar d := by
  simp only [IsWord, List.forall_mem_cons, List.head?_cons, Option.mem_some, forall_eq',
    isIdentifierStart_iff, ne_eq, reduceCtorEq, not_false_eq_true, true_and]
  exact and_right_comm

theorem isIdentifier_iff {cs : List Char} :
    isIdentifier cs = true ↔ IsWord cs ∨ ∃ stem, cs = stem ++ ['\n'] ∧ IsWord stem := by
  cases cs with
  | nil => simp [isIdentifier, IsWord]
  | cons c rest =>
    rw [isIdentifier, Bool.and_eq_true, all_withoutFinalNewline_iff, isWord_cons_iff, and_or_left]
    refine or_congr_right ⟨?_, ?_⟩
    · rintro ⟨hc, stem, rfl, hstem⟩
      exact ⟨c :: stem, rfl, isWord_cons_iff.mpr ⟨hc, hstem⟩⟩
    · rintro ⟨stem, heq, hstem⟩
      cases stem with
      | nil => exact (hstem.1 rfl).elim
      | cons d stem =>
        obtain ⟨rfl, rfl⟩ := List.cons.inj heq
        obtain ⟨hc, hrest⟩ := isWord_cons_iff.mp hstem
        exact ⟨hc, stem, rfl, hrest⟩

theorem safeName_iff {name : String} : SafeName name ↔ IsWord name.toList ∧ name.length ≤ 64 := by
  rw [← String.length_toList]
  constructor
  · rintro ⟨hpos, hle, hchars, hfirst⟩
    rw [← String.length_toList] at hpos hle
    exact ⟨⟨List.ne_nil_of_length_pos hpos, hchars, hfirst⟩, hle⟩
  · rintro ⟨⟨hne, hchars, hfirst⟩, hle⟩
    have hpos := List.length_pos_iff.mpr hne
    rw [String.length_toList] at hpos hle
    exact ⟨hpos, hle, hchars, hfirst⟩

theorem safeLine_iff {name : String} :
    SafeLine name ↔ (∃ stem, name.toList = stem ++ ['\n'] ∧ IsWord stem) ∧ name.length ≤ 64 := by
  constructor
  · rintro ⟨stem, rfl, hstem, hlength⟩
    refine ⟨⟨stem.toList, String.toList_append, (safeName_iff.mp hstem).1⟩, ?_⟩
    rw [String.length_append]
    exact hlength
  · rintro ⟨⟨stem, heq, hstem⟩, hlength⟩
    have hname : name = String.ofList stem ++ "\n" := by
      rw [← String.toList_inj, heq, String.toList_append, String.toList_ofList]
      rfl
    rw [hname, String.length_append] at hlength
    have hlt : (String.ofList stem).length < 64 := hlength
    refine ⟨String.ofList stem, hname, safeName_iff.mpr ⟨?_, Nat.le_of_lt hlt⟩, hlt⟩
    rwa [String.toList_ofList]

theorem isIdentifier_and_length_iff {name : String} :
    isIdentifier name.toList = true ∧ name.length ≤ maxIdentifierLength ↔
      SafeName name ∨ SafeLine name := by
  rw [isIdentifier_iff, safeName_iff, safeLine_iff, or_and_right]
  rfl

theorem checkIdentifier_cases (role : String) (v : Value) :
    (∃ name, v = .text name ∧ checkIdentifier role v = .ok name ∧
      (SafeName name ∨ SafeLine name)) ∨
    ∃ e, checkIdentifier role v = .error e ∧ (Fault.settings e).kind = .settings ∧
      ∀ name, v = .text name → ¬ (SafeName name ∨ SafeLine name) := by
  cases v with
  | text name =>
    by_cases hword : isIdentifier name.toList = true
    · by_cases hlong : maxIdentifierLength < name.length
      · refine .inr ⟨.longIdentifier role name, by simp [checkIdentifier, hword, hlong], rfl, ?_⟩
        rintro _ ⟨⟩ h
        exact Nat.not_le.mpr hlong (isIdentifier_and_length_iff.mpr h).2
      · exact .inl ⟨name, rfl, by simp [checkIdentifier, hword, hlong],
          isIdentifier_and_length_iff.mp ⟨hword, Nat.not_lt.mp hlong⟩⟩
    · refine .inr ⟨.unsafeIdentifier role (.text name), by simp [checkIdentifier, hword], rfl, ?_⟩
      rintro _ ⟨⟩ h
      exact hword (isIdentifier_and_length_iff.mpr h).1
  | _ => exact .inr ⟨_, rfl, rfl, nofun⟩

namespace StoreSettings

theorem checkIdentifier_of_make {url table ioThreads : Value} {s : StoreSettings}
    (h : make url table ioThreads = .ok s) : checkIdentifier "table" table = .ok s.tableName := by
  unfold make at h
  split at h
  · cases h
  · cases htable : checkIdentifier "table" table with
    | error e =>
      rw [htable] at h
      cases h
    | ok tableName =>
      cases hthreads : checkThreads ioThreads with
      | error e =>
        rw [htable, hthreads] at h
        cases h
      | ok _ =>
        rw [htable, hthreads] at h
        cases h
        rfl

theorem make_of_ofProperties {props : Properties} {s : StoreSettings}
    (h : ofProperties props = .ok s) : ∃ url table ioThreads, make url table ioThreads = .ok s := by
  unfold ofProperties at h
  cases hthreads : props.getInteger "kvbench.iothreads" "8" with
  | error e =>
    rw [hthreads] at h
    cases h
  | ok n =>
    rw [hthreads] at h
    exact ⟨_, _, _, h⟩

end StoreSettings

/-- A name is let through, as it is, if it is safe or a shorter safe name with a line end after it,
and every other name is refused. No settings of a store have another table name. -/
theorem checkIdentifier_exact (role name : String) :
    (checkIdentifier role (.text name) = .ok name ↔ SafeName name ∨ SafeLine name) ∧
      ((∃ e, checkIdentifier role (.text name) = .error e ∧ (Fault.settings e).kind = .settings) ↔
        ¬ (SafeName name ∨ SafeLine name)) ∧
      (∀ url table ioThreads s, StoreSettings.make url table ioThreads = .ok s →
        SafeName s.tableName ∨ SafeLine s.tableName) ∧
      ∀ props s, StoreSettings.ofProperties props = .ok s →
        SafeName s.tableName ∨ SafeLine s.tableName := by
  have hmake : ∀ url table ioThreads s, StoreSettings.make url table ioThreads = .ok s →
      SafeName s.tableName ∨ SafeLine s.tableName := by
    intro url table ioThreads s h
    have htable := StoreSettings.checkIdentifier_of_make h
    rcases checkIdentifier_cases "table" table with ⟨tableName, -, hok, hsafe⟩ | ⟨e, herror, -⟩
    · obtain rfl := Except.ok.inj (htable.symm.trans hok)
      exact hsafe
    · simp [herror] at htable
  have hproperties : ∀ props s, StoreSettings.ofProperties props = .ok s →
      SafeName s.tableName ∨ SafeLine s.tableName := by
    intro props s h
    obtain ⟨url, table, ioThreads, hs⟩ := StoreSettings.make_of_ofProperties h
    exact hmake url table ioThreads s hs
  rcases checkIdentifier_cases role (.text name) with ⟨_, ⟨⟩, hok, hsafe⟩ |
    ⟨e, herror, hkind, hrefused⟩
  · exact ⟨iff_of_true hok hsafe, iff_of_false (by simp [hok]) (not_not_intro hsafe), hmake,
      hproperties⟩
  · exact ⟨iff_of_false (by simp [herror]) (hrefused name rfl),
      iff_of_true ⟨e, herror, hkind⟩ (hrefused name rfl), hmake, hproperties⟩

/-- The longest name that may stand in a statement, with an underscore and then digits only. -/
theorem checkIdentifier_exact_of_longest :
    let name : String := String.ofList ('_' :: List.replicate 63 '9')
    let s : StoreSettings := ⟨.text "sqlite:///kvbench.db", name, .integer 8⟩
    StoreSettings.make s.url (.text name) s.ioThreads = .ok s ∧
      (SafeName s.tableName ∨ SafeLine s.tableName) ∧
      checkIdentifier "table" (.text name) = .ok name := by
  intro name s
  have hword : isIdentifier name.toList = true := by decide +kernel
  have hlength : ¬ maxIdentifierLength < name.length := by decide +kernel
  have htable : checkIdentifier "table" (.text name) = .ok name := by
    simp [checkIdentifier, hword, hlength]
  have hmake : StoreSettings.make s.url (.text name) s.ioThreads = .ok s := by
    rw [StoreSettings.make, htable]
    rfl
  have hsafe := (checkIdentifier_exact "table" name).2.2.1 _ _ _ s hmake
  exact ⟨hmake, hsafe, (checkIdentifier_exact "table" name).1.mpr hsafe⟩

/-- A name with a line end in it is let through, and becomes the table name of a store. -/
theorem checkIdentifier_accepts_newline :
    let s : StoreSettings := ⟨.text "sqlite:///kvbench.db", "kv\n", .integer 8⟩
    checkIdentifier "identifier" (.text "kv\n") = .ok "kv\n" ∧
      StoreSettings.make s.url (.text "kv\n") s.ioThreads = .ok s ∧ ¬ SafeName s.tableName ∧
      ¬ ∀ role name, checkIdentifier role (.text name) = .ok name ↔ SafeName name := by
  intro s
  have hok : checkIdentifier "identifier" (.text "kv\n") = .ok "kv\n" := by rfl
  have hnewline : ¬ SafeName "kv\n" := fun h =>
    not_isSafeChar_newline (h.chars '\n' (by decide))
  exact ⟨hok, by rfl, hnewline, fun h => hnewline ((h _ _).mp hok)⟩

end RecordStore
