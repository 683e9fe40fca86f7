import Mathlib.Data.List.Forall2
import Mathlib.Data.List.Induction
import Mathlib.Data.List.TakeWhile
import Mathlib.Data.Nat.Digits.Defs
import RecordStore.Fault
import RecordStore.Settings

/-! # Integers in properties

A property writes an integer if it is a numeral with a sign or none, apart from the white space
around it. A numeral is one or more runs of digits, which may be of any script, with single
underscores between the runs.
-/

namespace RecordStore.Text

def IsDigit (c : Char) (d : Nat) : Prop := d < 10 ∧ ∃ z ∈ digitZeros, c.toNat = z + d

structure Stripped (cs body : List Char) : Prop where
  around : ∃ left right, cs = left ++ (body ++ right) ∧ (∀ c ∈ left, isBlank c = true) ∧
    ∀ c ∈ right, isBlank c = true
  first : ∀ c ∈ body.head?, isBlank c = false
  last : ∀ c ∈ body.getLast?, isBlank c = false

/-- Runs of digits with an underscore between any two of them. -/
def Numeral (cs : List Char) (ds : List Nat) : Prop :=
  ∃ runs : List (List Char), runs ≠ [] ∧ (∀ run ∈ runs, run ≠ []) ∧
    cs = ['_'].intercalate runs ∧ List.Forall₂ IsDigit runs.flatten ds

/-- What an amount comes to with a sign in front of it. -/
inductive Signed : List Char → Nat → Int → Prop where
  | none (n : Nat) : Signed [] n n
  | plus (n : Nat) : Signed ['+'] n n
  | minus (n : Nat) : Signed ['-'] n (-n)

/-- A numeral of at most 4300 digits, with a sign or none in front of it. -/
def WritesInteger (cs : List Char) (n : Int) : Prop :=
  ∃ sign numeral ds, cs = sign ++ numeral ∧ Numeral numeral ds ∧ ds.length ≤ 4300 ∧
    Signed sign (Nat.ofDigits 10 ds.reverse) n

/-- The decimal digits of an integer, at most 4300 with the zeros in front of them, with underscores
between some of them and a sign that fits in front, and white space around it all. -/
def Spells (cs : List Char) (n : Int) : Prop :=
  ∃ left sign runs right zeros, cs = left ++ (sign ++ ['_'].intercalate runs ++ right) ∧
    (∀ c ∈ left, isBlank c = true) ∧ (∀ c ∈ right, isBlank c = true) ∧ Signed sign n.natAbs n ∧
    (∀ run ∈ runs, run ≠ []) ∧
    runs.flatten = List.replicate zeros '0' ++ Nat.toDigits 10 n.natAbs ∧
    runs.flatten.length ≤ 4300

section Digits

variable {c : Char} {d : Nat}

theorem digitZeros_apart : ∀ z ∈ digitZeros, ∀ z' ∈ digitZeros, z < z' + 10 → z' < z + 10 →
    z = z' := by decide +kernel

theorem digitValue?_eq_some_iff : digitValue? c = some d ↔ IsDigit c d := by
  rw [digitValue?, Option.map_eq_some_iff]
  constructor
  · rintro ⟨z, hfind, rfl⟩
    have hrange : z ≤ c.toNat ∧ c.toNat < z + 10 := by simpa using List.find?_some hfind
    exact ⟨by omega, z, List.mem_of_find?_eq_some hfind, by omega⟩
  · rintro ⟨hd, z, hmem, hc⟩
    cases hfind : digitZeros.find? fun z => z ≤ c.toNat && c.toNat < z + 10 with
    | none =>
      have hnot := List.find?_eq_none.mp hfind z hmem
      simp only [Bool.and_eq_true, decide_eq_true_eq] at hnot
      omega
    | some found =>
      have hrange : found ≤ c.toNat ∧ c.toNat < found + 10 := by simpa using List.find?_some hfind
      obtain rfl := digitZeros_apart z hmem found (List.mem_of_find?_eq_some hfind) (by omega)
        (by omega)
      exact ⟨z, rfl, by omega⟩

theorem not_isDigit_underscore : ¬ IsDigit '_' d := by
  rw [← digitValue?_eq_some_iff, show digitValue? '_' = none by decide]
  nofun

theorem not_isBlank_digit : ∀ z ∈ digitZeros, ∀ d, d < 10 →
    isBlank (Char.ofNat (z + d)) = false := by decide +kernel

theorem IsDigit.not_isBlank (h : IsDigit c d) : isBlank c = false := by
  obtain ⟨hd, z, hmem, hc⟩ := h
  rw [← c.ofNat_toNat, hc]
  exact not_isBlank_digit z hmem d hd

end Digits

section Numerals

variable {c : Char} {d : Nat} {cs : List Char} {ds : List Nat}

theorem intercalate_cons_run (c : Char) (run : List Char) (runs : List (List Char)) :
    ['_'].intercalate ([c] :: run :: runs) = c :: '_' :: ['_'].intercalate (run :: runs) :=
  List.intercalate_cons_cons

theorem intercalate_cons_head (c : Char) (run : List Char) (runs : List (List Char)) :
    ['_'].intercalate ((c :: run) :: runs) = c :: ['_'].intercalate (run :: runs) := by
  cases runs with
  | nil => simp
  | cons => simp [List.intercalate_cons_cons]

theorem Numeral.single (h : IsDigit c d) : Numeral [c] [d] :=
  ⟨[[c]], List.cons_ne_nil _ _, by simp, by simp, .cons h .nil⟩

theorem Numeral.cons (h : IsDigit c d) (hrest : Numeral cs ds) : Numeral (c :: cs) (d :: ds) := by
  obtain ⟨runs, hne, hruns, rfl, hdigits⟩ := hrest
  cases runs with
  | nil => exact (hne rfl).elim
  | cons run runs =>
    refine ⟨(c :: run) :: runs, List.cons_ne_nil _ _, ?_, (intercalate_cons_head c run runs).symm,
      .cons h hdigits⟩
    rw [List.forall_mem_cons] at hruns ⊢
    exact ⟨List.cons_ne_nil _ _, hruns.2⟩

theorem Numeral.underscore (h : IsDigit c d) (hrest : Numeral cs ds) :
    Numeral (c :: '_' :: cs) (d :: ds) := by
  obtain ⟨runs, hne, hruns, rfl, hdigits⟩ := hrest
  cases runs with
  | nil => exact (hne rfl).elim
  | cons run runs =>
    exact ⟨[c] :: run :: runs, List.cons_ne_nil _ _,
      List.forall_mem_cons.mpr ⟨List.cons_ne_nil _ _, hruns⟩,
      (intercalate_cons_run c run runs).symm,
      .cons h hdigits⟩

/-- A numeral begins with a digit, and goes on with another numeral, right away or after an
underscore, if it goes on. -/
theorem Numeral.cases (h : Numeral cs ds) : ∃ c d rest ds', cs = c :: rest ∧ ds = d :: ds' ∧
    IsDigit c d ∧ (rest = [] ∧ ds' = [] ∨ Numeral rest ds' ∨
      ∃ more, rest = '_' :: more ∧ Numeral more ds') := by
  obtain ⟨runs, hne, hruns, rfl, hdigits⟩ := h
  rcases runs with _ | ⟨_ | ⟨c, run⟩, runs⟩
  · exact (hne rfl).elim
  · exact (hruns [] List.mem_cons_self rfl).elim
  · rw [List.flatten_cons, List.cons_append, List.forall₂_cons_left_iff] at hdigits
    obtain ⟨d, ds', hd, hrest, rfl⟩ := hdigits
    have hruns' := (List.forall_mem_cons.mp hruns).2
    refine ⟨c, d, _, ds', intercalate_cons_head c run runs, rfl, hd, ?_⟩
    cases run with
    | cons c' run =>
      exact .inr (.inl ⟨(c' :: run) :: runs, List.cons_ne_nil _ _,
        List.forall_mem_cons.mpr ⟨List.cons_ne_nil _ _, hruns'⟩, rfl, hrest⟩)
    | nil =>
      cases runs with
      | nil => exact .inl ⟨by simp, by simpa using hrest⟩
      | cons run runs =>
        exact .inr (.inr ⟨_, by simp [List.intercalate], run :: runs, List.cons_ne_nil _ _, hruns',
          rfl, hrest⟩)

theorem readDigits_singleton (c : Char) : readDigits [c] = (digitValue? c).map ([·]) := by
  rw [readDigits]
  cases digitValue? c <;> rfl

theorem readDigits_underscore (c : Char) (more : List Char) :
    readDigits (c :: '_' :: more) =
      (digitValue? c).bind fun d => (readDigits more).map (d :: ·) := by
  rw [readDigits]
  rfl

theorem readDigits_cons_cons {x : Char} (hx : x ≠ '_') (c : Char) (more : List Char) :
    readDigits (c :: x :: more) =
      (digitValue? c).bind fun d => (readDigits (x :: more)).map (d :: ·) := by
  rw [readDigits]
  simp only [Option.bind_eq_bind]
  congr 1
  funext d
  split
  · simp_all
  · simp_all
  · rfl

theorem numeral_of_readDigits (h : readDigits cs = some ds) : Numeral cs ds := by
  fun_induction readDigits cs generalizing ds with
  | case1 => cases h
  | case2 c rest ih =>
    obtain ⟨d, hd, h⟩ := Option.bind_eq_some_iff.mp h
    rw [digitValue?_eq_some_iff] at hd
    split at h
    · cases h
      exact .single hd
    · obtain ⟨ds, hds, rfl⟩ := Option.map_eq_some_iff.mp h
      exact .underscore hd (ih hds)
    · obtain ⟨ds, hds, rfl⟩ := Option.map_eq_some_iff.mp h
      split at ih
      · contradiction
      · simp_all
      · exact .cons hd (ih hds)

theorem readDigits_of_numeral (h : Numeral cs ds) : readDigits cs = some ds := by
  induction ds generalizing cs with
  | nil =>
    obtain ⟨_, _, _, _, -, hds, -⟩ := h.cases
    cases hds
  | cons d ds ih =>
    obtain ⟨c, _, rest, _, rfl, ⟨⟩, hc, hrest⟩ := h.cases
    rw [← digitValue?_eq_some_iff] at hc
    rcases hrest with ⟨rfl, rfl⟩ | hrest | ⟨more, rfl, hmore⟩
    · rw [readDigits_singleton, hc]
      rfl
    · obtain ⟨x, e, more, _, rfl, -, hx, -⟩ := hrest.cases
      have hne : x ≠ '_' := fun heq => not_isDigit_underscore (heq ▸ hx)
      rw [readDigits_cons_cons hne, hc, ih hrest]
      rfl
    · rw [readDigits_underscore, hc, ih hmore]
      rfl

theorem readDigits_eq_some_iff : readDigits cs = some ds ↔ Numeral cs ds :=
  ⟨numeral_of_readDigits, readDigits_of_numeral⟩

theorem Numeral.not_isBlank (h : Numeral cs ds) : ∀ c ∈ cs, isBlank c = false := by
  induction ds generalizing cs with
  | nil =>
    obtain ⟨_, _, _, _, -, hds, -⟩ := h.cases
    cases hds
  | cons d ds ih =>
    obtain ⟨c, _, rest, _, rfl, ⟨⟩, hc, hrest⟩ := h.cases
    rw [List.forall_mem_cons]
    refine ⟨hc.not_isBlank, ?_⟩
    rcases hrest with ⟨rfl, -⟩ | hrest | ⟨more, rfl, hmore⟩
    · nofun
    · exact ih hrest
    · exact List.forall_mem_cons.mpr ⟨by decide, ih hmore⟩

end Numerals

section Integers

variable {cs body : List Char} {n : Int}

theorem ofDigits_eq (ds : List Nat) : ofDigits ds = Nat.ofDigits 10 ds.reverse := by
  induction ds using List.reverseRecOn with
  | nil => rfl
  | append_singleton ds d ih =>
    rw [ofDigits, List.foldl_append, ← ofDigits, ih, List.reverse_concat, Nat.ofDigits_cons]
    exact Nat.add_comm _ _

theorem readNatural_eq_some_iff {a : Nat} : readNatural cs = some a ↔
    ∃ ds, Numeral cs ds ∧ ds.length ≤ 4300 ∧ Nat.ofDigits 10 ds.reverse = a := by
  simp only [readNatural, Option.bind_eq_bind, Option.bind_eq_some_iff, readDigits_eq_some_iff,
    Option.ite_none_right_eq_some, Option.some.injEq, ofDigits_eq]
  rfl

theorem readNatural_sign {c : Char} (hc : c = '+' ∨ c = '-') : readNatural (c :: cs) = none := by
  rw [Option.eq_none_iff_forall_ne_some]
  intro a ha
  obtain ⟨ds, hnumeral, -⟩ := readNatural_eq_some_iff.mp ha
  obtain ⟨_, d, _, _, ⟨⟩, -, hd, -⟩ := hnumeral.cases
  rw [← digitValue?_eq_some_iff] at hd
  rcases hc with rfl | rfl
  · simp [show digitValue? '+' = none by decide] at hd
  · simp [show digitValue? '-' = none by decide] at hd

theorem readSigned_eq_some_iff : readSigned cs = some n ↔ WritesInteger cs n := by
  constructor
  · intro h
    unfold readSigned at h
    split at h
    · obtain ⟨a, ha, rfl⟩ := Option.map_eq_some_iff.mp h
      obtain ⟨ds, hnumeral, hlength, rfl⟩ := readNatural_eq_some_iff.mp ha
      exact ⟨['+'], _, ds, rfl, hnumeral, hlength, .plus _⟩
    · obtain ⟨a, ha, rfl⟩ := Option.map_eq_some_iff.mp h
      obtain ⟨ds, hnumeral, hlength, rfl⟩ := readNatural_eq_some_iff.mp ha
      exact ⟨['-'], _, ds, rfl, hnumeral, hlength, .minus _⟩
    · obtain ⟨a, ha, rfl⟩ := Option.map_eq_some_iff.mp h
      obtain ⟨ds, hnumeral, hlength, rfl⟩ := readNatural_eq_some_iff.mp ha
      exact ⟨[], _, ds, rfl, hnumeral, hlength, .none _⟩
  · rintro ⟨sign, numeral, ds, rfl, hnumeral, hlength, hsign⟩
    have hread := readNatural_eq_some_iff.mpr ⟨ds, hnumeral, hlength, rfl⟩
    generalize Nat.ofDigits 10 ds.reverse = a at hread hsign
    cases hsign with
    | plus => simp [readSigned, hread]
    | minus => simp [readSigned, hread]
    | none =>
      rw [List.nil_append]
      unfold readSigned
      split
      · simp [readNatural_sign] at hread
      · simp [readNatural_sign] at hread
      · simp [hread]

theorem WritesInteger.not_isBlank (h : WritesInteger cs n) : ∀ c ∈ cs, isBlank c = false := by
  obtain ⟨sign, numeral, ds, rfl, hnumeral, -, hsign⟩ := h
  cases hsign with
  | none => exact hnumeral.not_isBlank
  | plus | minus => exact List.forall_mem_cons.mpr ⟨by decide, hnumeral.not_isBlank⟩

end Integers

section WhiteSpace

variable {cs body : List Char} {n : Int}

theorem stripped_trim (cs : List Char) : Stripped cs (trim cs) := by
  have hright : trim cs ++ ((cs.dropWhile isBlank).reverse.takeWhile isBlank).reverse =
      cs.dropWhile isBlank := by
    rw [trim, ← List.reverse_append, List.takeWhile_append_dropWhile, List.reverse_reverse]
  constructor
  case around =>
    have hsplit : cs = cs.takeWhile isBlank ++
        (trim cs ++ ((cs.dropWhile isBlank).reverse.takeWhile isBlank).reverse) := by
      rw [hright, List.takeWhile_append_dropWhile]
    exact ⟨_, _, hsplit, fun c hc => List.mem_takeWhile_imp hc, fun c hc =>
      List.mem_takeWhile_imp (List.mem_reverse.mp hc)⟩
  case first =>
    intro c hc
    have h := List.head?_dropWhile_not isBlank cs
    rwa [← hright, List.head?_append, Option.mem_def.mp hc] at h
  case last =>
    intro c hc
    have h := List.head?_dropWhile_not isBlank (cs.dropWhile isBlank).reverse
    rw [trim, List.getLast?_reverse] at hc
    rwa [hc] at h

theorem dropWhile_isBlank_eq_self (h : ∀ c ∈ cs.head?, isBlank c = false) :
    cs.dropWhile isBlank = cs := by
  cases cs with
  | nil => rfl
  | cons c cs => exact List.dropWhile_cons_of_neg (by simp [h c rfl])

theorem Stripped.trim_eq (h : Stripped cs body) : trim cs = body := by
  obtain ⟨⟨left, right, rfl, hleft, hright⟩, hfirst, hlast⟩ := h
  rw [List.getLast?_eq_head?_reverse] at hlast
  cases body with
  | nil =>
    rw [trim, List.nil_append, List.dropWhile_append_of_pos hleft,
      List.dropWhile_eq_nil_iff.mpr hright]
    rfl
  | cons c body =>
    have hcut : (c :: body ++ right).dropWhile isBlank = c :: body ++ right :=
      dropWhile_isBlank_eq_self hfirst
    rw [trim, List.dropWhile_append_of_pos hleft, hcut, List.reverse_append,
      List.dropWhile_append_of_pos (by simpa using hright), dropWhile_isBlank_eq_self hlast,
      List.reverse_reverse]

theorem readInteger_eq_some_iff {s : String} : readInteger s = some n ↔
    ∃ body, Stripped s.toList body ∧ WritesInteger body n := by
  rw [readInteger, readSigned_eq_some_iff]
  exact ⟨fun h => ⟨_, stripped_trim _, h⟩, fun ⟨body, hstripped, h⟩ => hstripped.trim_eq ▸ h⟩

end WhiteSpace

section Decimals

variable {cs : List Char} {n : Int}

theorem isDigit_digitChar {d : Nat} (h : d < 10) : IsDigit d.digitChar d :=
  ⟨h, 48, by decide, Nat.toNat_digitChar_of_lt_ten h⟩

theorem exists_toDigits (n : Nat) : ∃ ds, List.Forall₂ IsDigit (Nat.toDigits 10 n) ds ∧
    Nat.ofDigits 10 ds.reverse = n := by
  induction n using Nat.strongRecOn with
  | ind n ih =>
    by_cases h : n < 10
    · exact ⟨[n], by simp [Nat.toDigits_of_lt_base h, isDigit_digitChar h], by simp⟩
    · obtain ⟨ds, hdigits, hvalue⟩ := ih (n / 10) (by omega)
      refine ⟨ds ++ [n % 10], ?_, ?_⟩
      · rw [Nat.toDigits_of_base_le (by decide) (by omega)]
        exact List.rel_append hdigits (.cons (isDigit_digitChar (Nat.mod_lt n (by decide))) .nil)
      · rw [List.reverse_concat, Nat.ofDigits_cons, hvalue]
        exact Nat.mod_add_div n 10

theorem isDigit_zeros (zeros : Nat) :
    List.Forall₂ IsDigit (List.replicate zeros '0') (List.replicate zeros 0) := by
  induction zeros with
  | zero => exact .nil
  | succ zeros ih => exact .cons (isDigit_digitChar (by decide)) ih

theorem Spells.writes (h : Spells cs n) : ∃ body, Stripped cs body ∧ WritesInteger body n := by
  obtain ⟨left, sign, runs, right, zeros, rfl, hleft, hright, hsign, hruns, hflatten, hlength⟩ := h
  obtain ⟨ds, hdigits, hvalue⟩ := exists_toDigits n.natAbs
  have hall : List.Forall₂ IsDigit runs.flatten (List.replicate zeros 0 ++ ds) :=
    hflatten ▸ List.rel_append (isDigit_zeros zeros) hdigits
  have hne : runs ≠ [] := by
    rintro rfl
    exact Nat.toDigits_ne_nil (List.append_eq_nil_iff.mp hflatten.symm).2
  have hwrites : WritesInteger (sign ++ ['_'].intercalate runs) n := by
    refine ⟨sign, _, _, rfl, ⟨runs, hne, hruns, rfl, hall⟩, hall.length_eq ▸ hlength, ?_⟩
    rwa [List.reverse_append, List.reverse_replicate, Nat.ofDigits_append_replicate_zero, hvalue]
  exact ⟨_, ⟨⟨left, right, by simp, hleft, hright⟩,
    fun c hc => hwrites.not_isBlank c (List.mem_of_head? hc),
    fun c hc => hwrites.not_isBlank c (List.mem_of_getLast? hc)⟩, hwrites⟩

end Decimals
end RecordStore.Text

namespace RecordStore.Properties

open Text

theorem getInteger_eq_ok_iff {props : Properties} {name default : String} {n : Int} :
    props.getInteger name default = .ok n ↔
      ∃ body, Stripped (props.get name default).shown.toList body ∧ WritesInteger body n := by
  rw [← readInteger_eq_some_iff, getInteger]
  cases readInteger (props.get name default).shown <;> simp

theorem getInteger_eq_error_iff {props : Properties} {name default : String} :
    props.getInteger name default = .error (.notAnInteger name (props.get name default)) ↔
      ∀ n, props.getInteger name default ≠ .ok n := by
  rw [getInteger]
  cases readInteger (props.get name default).shown <;> simp

/-- A property is read as an integer just if it writes one, and then as the one it writes, which is
the same however an integer of at most 4300 digits is written out in decimal. -/
theorem getInteger_exact (props : Properties) (name default : String) :
    let raw := props.get name default
    (∀ n, props.getInteger name default = .ok n ↔
      ∃ body, Stripped raw.shown.toList body ∧ WritesInteger body n) ∧
    ((¬ ∃ n body, Stripped raw.shown.toList body ∧ WritesInteger body n) ↔
      props.getInteger name default = .error (.notAnInteger name raw)) ∧
    (Fault.settings (.notAnInteger name raw)).kind = .settings ∧
    ∀ n, Spells raw.shown.toList n → props.getInteger name default = .ok n := by
  refine ⟨fun n => getInteger_eq_ok_iff, ?_, rfl, fun n h => getInteger_eq_ok_iff.mpr h.writes⟩
  rw [getInteger_eq_error_iff, not_exists]
  exact forall_congr' fun n => not_congr getInteger_eq_ok_iff.symm

theorem getInteger_exact_of_padded :
    let props : Properties := [("kvbench.batchsize", .text "\u3000-00_1_200\n")]
    Spells (props.get "kvbench.batchsize" "0").shown.toList (-1200) ∧
      props.getInteger "kvbench.batchsize" "0" = .ok (-1200) := by
  intro props
  have hspells : Spells (props.get "kvbench.batchsize" "0").shown.toList (-1200) :=
    ⟨['\u3000'], ['-'], [['0', '0'], ['1'], ['2', '0', '0']], ['\n'], 2, by decide +kernel,
      List.forall_mem_singleton.mpr rfl, List.forall_mem_singleton.mpr rfl, .minus 1200, by decide,
      by decide, by decide⟩
  exact ⟨hspells, (getInteger_exact props "kvbench.batchsize" "0").2.2.2 _ hspells⟩

end RecordStore.Properties
