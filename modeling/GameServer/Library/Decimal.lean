import Mathlib.Data.Int.Basic
import Mathlib.Data.List.Basic
import Mathlib.Data.List.Induction

/-! # Decimal text of signed integers

Printing writes a minus sign only for negative numbers. Parsing takes one
optional sign and at least one digit, and refuses numbers out of range.
-/
namespace GameServer.Library.Decimal

def printInt (n : ℤ) : List Char :=
  if n < 0 then '-' :: Nat.toDigits 10 n.natAbs else Nat.toDigits 10 n.natAbs

def parseNat (cs : List Char) : Option ℕ :=
  if cs.isEmpty then none
  else if cs.all Char.isDigit then some (Nat.ofDigitChars 10 cs 0)
  else none

/-- A signed number between the two bounds. -/
def parseInt (lo hi : ℤ) (cs : List Char) : Option ℤ :=
  let n : Option ℤ := match cs with
    | '-' :: ds => (parseNat ds).map (fun n : ℕ => -(n : ℤ))
    | '+' :: ds => (parseNat ds).map (fun n : ℕ => (n : ℤ))
    | ds => (parseNat ds).map (fun n : ℕ => (n : ℤ))
  n.filter (fun n => decide (lo ≤ n ∧ n ≤ hi))

theorem isDigit_of_mem_toDigits {n : ℕ} {c : Char} (h : c ∈ Nat.toDigits 10 n) : c.isDigit = true :=
  Nat.isDigit_of_mem_toDigits (by decide) (by decide) h

theorem parseNat_toDigits (n : ℕ) : parseNat (Nat.toDigits 10 n) = some n := by
  have hne : (Nat.toDigits 10 n).isEmpty = false := by
    rw [List.isEmpty_eq_false_iff]
    exact Nat.toDigits_ne_nil
  have hall : (Nat.toDigits 10 n).all Char.isDigit = true :=
    List.all_eq_true.mpr (fun c hc => isDigit_of_mem_toDigits hc)
  unfold parseNat
  rw [hne, hall, Nat.ofDigitChars_ten_toDigits]
  rfl

theorem parseInt_toDigits (lo hi : ℤ) (n : ℕ) :
    parseInt lo hi (Nat.toDigits 10 n) =
      (some (n : ℤ)).filter (fun n => decide (lo ≤ n ∧ n ≤ hi)) := by
  have hp := parseNat_toDigits n
  have hd : ∀ c ∈ Nat.toDigits 10 n, c.isDigit = true := fun c hc => isDigit_of_mem_toDigits hc
  unfold parseInt
  split
  · rename_i ds he
    have h := hd '-' (by rw [he]; exact List.mem_cons_self)
    simp at h
  · rename_i ds he
    have h := hd '+' (by rw [he]; exact List.mem_cons_self)
    simp at h
  · rw [hp]
    rfl

/-- Printing and parsing back loses nothing within the range. -/
theorem parseInt_printInt {lo hi n : ℤ} (hlo : lo ≤ n) (hhi : n ≤ hi) :
    parseInt lo hi (printInt n) = some n := by
  have hin : decide (lo ≤ n ∧ n ≤ hi) = true := decide_eq_true ⟨hlo, hhi⟩
  unfold printInt
  split
  · rename_i hn
    have habs : -(n.natAbs : ℤ) = n := by omega
    simp only [parseInt, parseNat_toDigits, Option.map_some, habs, Option.filter_some, hin, if_true]
  · rename_i hn
    have habs : (n.natAbs : ℤ) = n := by omega
    rw [parseInt_toDigits, habs, Option.filter_some, if_pos hin]

theorem eq_of_parseInt_printInt {lo hi n m : ℤ} (h : parseInt lo hi (printInt n) = some m) : m = n := by
  by_cases hin : lo ≤ n ∧ n ≤ hi
  · rw [parseInt_printInt hin.1 hin.2] at h
    exact (Option.some.inj h).symm
  · unfold printInt at h
    split at h
    · rename_i hn
      have habs : -(n.natAbs : ℤ) = n := by omega
      simp only [parseInt, parseNat_toDigits, Option.map_some, habs, Option.filter_some, hin, decide_false] at h
      cases h
    · rename_i hn
      have habs : (n.natAbs : ℤ) = n := by omega
      rw [parseInt_toDigits, habs, Option.filter_some, if_neg (by simpa using hin)] at h
      cases h

theorem toList_toString (n : ℤ) : (toString n).toList = printInt n := by
  unfold printInt
  cases n with
  | ofNat m => simp [toString, Int.repr]
  | negSucc m => simp [toString, Int.repr]

theorem mem_printInt {n : ℤ} {c : Char} (h : c ∈ printInt n) : c = '-' ∨ c.isDigit = true := by
  unfold printInt at h
  split at h
  · rcases List.mem_cons.mp h with rfl | h
    · exact Or.inl rfl
    · exact Or.inr (isDigit_of_mem_toDigits h)
  · exact Or.inr (isDigit_of_mem_toDigits h)

/-! ## The texts of a number -/

theorem digitChar_of_isDigit {c : Char} (h : c.isDigit = true) :
    c.toNat - '0'.toNat < 10 ∧ (c.toNat - '0'.toNat).digitChar = c := by
  obtain ⟨hlo,hhi⟩ := Char.isDigit_iff_toNat.mp h
  have hzero : '0'.toNat = 48 := rfl
  have hnine : '9'.toNat = 57 := rfl
  have hlt : c.toNat - '0'.toNat < 10 := by omega
  refine ⟨hlt,Char.toNat_inj.mp ?_⟩
  rw [Nat.toNat_digitChar_of_lt_ten hlt]
  omega

theorem exists_zeros {ds : List Char} (hd : ∀ c ∈ ds, c.isDigit = true) (hne : ds ≠ []) :
    ∃ k, ds = List.replicate k '0' ++ Nat.toDigits 10 (Nat.ofDigitChars 10 ds 0) := by
  -- from the right: one more digit follows a value, or zeros only
  induction ds using List.reverseRecOn with
  | nil => exact absurd rfl hne
  | append_singleton ds c ih =>
    obtain ⟨hlt,hc⟩ := digitChar_of_isDigit (hd c (by simp))
    have hlast : Nat.toDigits 10 (c.toNat - '0'.toNat) = [c] := by
      rw [Nat.toDigits_of_lt_base hlt, hc]
    have hvalue : Nat.ofDigitChars 10 (ds ++ [c]) 0 =
        10 * Nat.ofDigitChars 10 ds 0 + (c.toNat - '0'.toNat) := by
      rw [Nat.ofDigitChars_append, Nat.ofDigitChars_cons, Nat.ofDigitChars_nil]
    rw [hvalue]
    by_cases hds : ds = []
    · refine ⟨0,?_⟩
      rw [hds, Nat.ofDigitChars_nil, Nat.mul_zero, Nat.zero_add, hlast]
      rfl
    · obtain ⟨k,hk⟩ := ih (fun x hx => hd x (by simp [hx])) hds
      rcases Nat.eq_zero_or_pos (Nat.ofDigitChars 10 ds 0) with hz | hpos
      · rw [hz, Nat.toDigits_zero] at hk
        refine ⟨k + 1,?_⟩
        rw [hz, Nat.mul_zero, Nat.zero_add, hlast, hk, List.replicate_succ']
      · refine ⟨k,?_⟩
        rw [← Nat.toDigits_append_toDigits (by decide) hpos hlt, hlast, ← List.append_assoc, ← hk]

theorem isDigit_of_zeros {k n : ℕ} {c : Char} (h : c ∈ List.replicate k '0' ++ Nat.toDigits 10 n) :
    c.isDigit = true := by
  rcases List.mem_append.mp h with h | h
  · rw [List.eq_of_mem_replicate h]
    decide
  · exact isDigit_of_mem_toDigits h

theorem parseNat_eq_some_iff {cs : List Char} {n : ℕ} :
    parseNat cs = some n ↔ ∃ k, cs = List.replicate k '0' ++ Nat.toDigits 10 n := by
  unfold parseNat
  constructor
  · intro h
    split at h
    · cases h
    · rename_i hne
      split at h
      · rename_i hall
        obtain rfl := Option.some.inj h
        exact exists_zeros (fun c hc => List.all_eq_true.mp hall c hc) (by simpa using hne)
      · cases h
  · rintro ⟨k,rfl⟩
    have hne : (List.replicate k '0' ++ Nat.toDigits 10 n).isEmpty = false := by
      rw [List.isEmpty_eq_false_iff]
      exact List.append_ne_nil_of_right_ne_nil _ Nat.toDigits_ne_nil
    have hall : (List.replicate k '0' ++ Nat.toDigits 10 n).all Char.isDigit = true :=
      List.all_eq_true.mpr (fun c hc => isDigit_of_zeros hc)
    have hvalue : Nat.ofDigitChars 10 (List.replicate k '0' ++ Nat.toDigits 10 n) 0 = n := by
      rw [Nat.ofDigitChars_append, Nat.ofDigitChars_replicate_zero, Nat.mul_zero,
        Nat.ofDigitChars_ten_toDigits]
    rw [hne, hall, hvalue]
    rfl

/-- A minus before a number that has one, or a plus or nothing before one that has none, then
any zeros, then the digits. -/
def Denotes (cs : List Char) (n : ℤ) : Prop :=
  ∃ sign k, cs = sign ++ (List.replicate k '0' ++ Nat.toDigits 10 n.natAbs) ∧
    (sign = ['-'] ∧ n ≤ 0 ∨ (sign = ['+'] ∨ sign = []) ∧ 0 ≤ n)

theorem not_sign {c : Char} (hc : c.isDigit = false) {ds : List Char} {k n : ℕ}
    (h : c :: ds = List.replicate k '0' ++ Nat.toDigits 10 n) : False := by
  have hd : c.isDigit = true := isDigit_of_zeros (h ▸ List.mem_cons_self)
  rw [hc] at hd
  cases hd

theorem denotes_minus {ds : List Char} {n : ℤ} :
    Denotes ('-' :: ds) n ↔ n ≤ 0 ∧ parseNat ds = some n.natAbs := by
  rw [parseNat_eq_some_iff]
  constructor
  · rintro ⟨sign,k,he,⟨rfl,hn⟩ | ⟨rfl | rfl,hn⟩⟩
    · exact ⟨hn,k,(List.cons.inj he).2⟩
    · exact absurd (List.cons.inj he).1 (by decide)
    · exact (not_sign (by decide) he).elim
  · rintro ⟨hn,k,rfl⟩
    exact ⟨['-'],k,rfl,Or.inl ⟨rfl,hn⟩⟩

theorem denotes_plus {ds : List Char} {n : ℤ} :
    Denotes ('+' :: ds) n ↔ 0 ≤ n ∧ parseNat ds = some n.natAbs := by
  rw [parseNat_eq_some_iff]
  constructor
  · rintro ⟨sign,k,he,⟨rfl,hn⟩ | ⟨rfl | rfl,hn⟩⟩
    · exact absurd (List.cons.inj he).1 (by decide)
    · exact ⟨hn,k,(List.cons.inj he).2⟩
    · exact (not_sign (by decide) he).elim
  · rintro ⟨hn,k,rfl⟩
    exact ⟨['+'],k,rfl,Or.inr ⟨Or.inl rfl,hn⟩⟩

theorem denotes_unsigned {cs : List Char} (hm : ∀ ds, cs ≠ '-' :: ds) (hp : ∀ ds, cs ≠ '+' :: ds)
    {n : ℤ} : Denotes cs n ↔ 0 ≤ n ∧ parseNat cs = some n.natAbs := by
  rw [parseNat_eq_some_iff]
  constructor
  · rintro ⟨sign,k,he,⟨rfl,hn⟩ | ⟨rfl | rfl,hn⟩⟩
    · exact absurd he (hm _)
    · exact absurd he (hp _)
    · exact ⟨hn,k,he⟩
  · rintro ⟨hn,k,he⟩
    exact ⟨[],k,he,Or.inr ⟨Or.inr rfl,hn⟩⟩

theorem map_natCast {o : Option ℕ} {n : ℤ} :
    o.map (fun m : ℕ => (m : ℤ)) = some n ↔ 0 ≤ n ∧ o = some n.natAbs := by
  cases o with
  | none => simp
  | some m =>
    simp only [Option.map_some, Option.some.injEq]
    omega

theorem map_neg_natCast {o : Option ℕ} {n : ℤ} :
    o.map (fun m : ℕ => -(m : ℤ)) = some n ↔ n ≤ 0 ∧ o = some n.natAbs := by
  cases o with
  | none => simp
  | some m =>
    simp only [Option.map_some, Option.some.injEq]
    omega

/-- What is parsed is exactly what denotes a number in range. -/
theorem parseInt_eq_some_iff {lo hi n : ℤ} {cs : List Char} :
    parseInt lo hi cs = some n ↔ Denotes cs n ∧ lo ≤ n ∧ n ≤ hi := by
  have hfilter : ∀ o : Option ℤ, o.filter (fun n => decide (lo ≤ n ∧ n ≤ hi)) = some n ↔
      o = some n ∧ lo ≤ n ∧ n ≤ hi := by
    intro o
    simp [Option.filter_eq_some_iff]
  unfold parseInt
  rw [hfilter]
  apply and_congr_left'
  split
  · rw [map_neg_natCast, denotes_minus]
  · rw [map_natCast, denotes_plus]
  · rename_i hm hp
    rw [map_natCast, denotes_unsigned hm hp]

theorem printInt_of_nonneg {n : ℤ} (hn : 0 ≤ n) : printInt n = Nat.toDigits 10 n.natAbs := by
  unfold printInt
  rw [if_neg (by omega)]

/-- The printed text is the shortest that denotes a number, and the only one so short. -/
theorem Denotes.shortest {cs : List Char} {n : ℤ} (h : Denotes cs n) :
    cs = printInt n ∨ (printInt n).length < cs.length := by
  obtain ⟨sign,k,rfl,⟨rfl,hn⟩ | ⟨rfl | rfl,hn⟩⟩ := h
  · rcases Int.lt_or_eq_of_le hn with hneg | rfl
    · have hprint : printInt n = '-' :: Nat.toDigits 10 n.natAbs := if_pos hneg
      rw [hprint]
      cases k with
      | zero => exact Or.inl rfl
      | succ k =>
        right
        simp only [List.length_append, List.length_cons, List.length_nil, List.length_replicate]
        omega
    · right
      rw [printInt_of_nonneg (Int.le_refl 0)]
      simp only [List.length_append, List.length_cons, List.length_nil, List.length_replicate]
      omega
  · right
    rw [printInt_of_nonneg hn]
    simp only [List.length_append, List.length_cons, List.length_nil, List.length_replicate]
    omega
  · rw [printInt_of_nonneg hn]
    cases k with
    | zero => exact Or.inl rfl
    | succ k =>
      right
      simp only [List.length_append, List.length_nil, List.length_replicate]
      omega

end GameServer.Library.Decimal
