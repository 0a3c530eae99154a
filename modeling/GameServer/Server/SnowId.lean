import GameServer.Library.Numeral
import GameServer.Server.Config

/-! # Radix text of ids

Ids are written in a radix of up to 64: the encoder recurses on the quotient and strips one
leading zero from what comes back, the decoder is a loop over indices with a default for
every lookup. No other module uses them yet.
-/
namespace GameServer.Server
open Library

def allChars : String := "0123456789abcdefghijklmnopqrstuvwxyzABCDEFGHIJKLMNOPQRSTUVWXYZ-_"

/-- `str::strip_prefix`: the rest of a text that starts with the pattern. -/
def stripPrefix (s pattern : String) : Option String :=
  (pattern.toList.isPrefixOf? s.toList).map String.ofList

/-- What the encoder does with the text of the quotient. -/
def withLastDigit (num : UInt64) (radix : UInt32) (base : String) : String :=
  let start := (stripPrefix base "0").getD base
  let last := match allChars.toList[(num % radix.toUInt64).toNat]? with
    | some data => String.singleton data
    | none => ""
  start ++ last

/-- The encoder with room for `depth` nested calls; `none` is a recursion that needs more of
them, or a division by zero. -/
def base10ToNWithin : ℕ → UInt64 → UInt32 → Option String
  | 0, _, _ => none
  | depth + 1, num, radix =>
    if num = 0 then some "0"
    else if radix = 0 then none
    else (base10ToNWithin depth (num / radix.toUInt64) radix).map (withLastDigit num radix)

/-- A radix of two or more halves the number at least, so 64 divisions reach zero. -/
def base10ToN (num : UInt64) (radix : UInt32) : Option String := base10ToNWithin 65 num radix

def mulU128 : Overflow → BitVec 128 → BitVec 128 → Option (BitVec 128)
  | .wraps, a, b => some (a * b)
  | .panics, a, b => if a.toNat * b.toNat < 2 ^ 128 then some (a * b) else none

def addU128 : Overflow → BitVec 128 → BitVec 128 → Option (BitVec 128)
  | .wraps, a, b => some (a + b)
  | .panics, a, b => if a.toNat + b.toNat < 2 ^ 128 then some (a + b) else none

def decodeAt (overflow : Overflow) (numStr : String) (radix : UInt32) (result : BitVec 128) (i : ℕ) :
    Option (BitVec 128) :=
  let targetChar := numStr.toList[i]?.getD '0'
  let data := (allChars.toList.findIdx? (· == targetChar)).getD 0
  (mulU128 overflow result (BitVec.ofNat 128 radix.toNat)).bind
    (fun result => addU128 overflow result (BitVec.ofNat 128 data))

/-- The loop counts bytes and looks characters up. `none` is an overflow in a checked build. -/
def baseNTo10 (overflow : Overflow) (numStr : String) (radix : UInt32) : Option (BitVec 128) :=
  (List.range numStr.utf8ByteSize).foldlM (decodeAt overflow numStr radix) 0

theorem length_allChars : allChars.toList.length = 64 := by decide
theorem nodup_allChars : allChars.toList.Nodup := by decide
theorem allChars_eq_cons : allChars.toList = '0' :: allChars.toList.tail := by decide
theorem toList_zero : "0".toList = ['0'] := by decide

theorem utf8Size_allChars {c : Char} (hc : c ∈ allChars.toList) : c.utf8Size = 1 := by
  have hall : allChars.toList.all (fun c => decide (c.utf8Size = 1)) = true := by decide
  exact of_decide_eq_true (List.all_eq_true.mp hall c hc)

/-- A non-empty text over the first `radix` characters that starts with '0' only where it is
"0". -/
structure IsNumeral (radix : UInt32) (s : String) : Prop where
  ne_empty : s ≠ ""
  mem : ∀ c ∈ s.toList, c ∈ allChars.toList.take radix.toNat
  lead : s.toList.head? = some '0' → s = "0"

/-- The number a text stands for, by the places of its characters. -/
def numeralValue (radix : UInt32) (s : String) : ℕ :=
  Nat.ofDigits radix.toNat (s.toList.map (fun c => allChars.toList.idxOf c)).reverse

section Radix
variable {radix : UInt32}

theorem quotient_lt (h2 : 2 ≤ radix) {num : UInt64} {k : ℕ} (hk : num.toNat < 2 ^ (k + 1)) :
    (num / radix.toUInt64).toNat < 2 ^ k := by
  rw [UInt64.toNat_div, UInt32.toNat_toUInt64]
  refine Nat.div_lt_of_lt_mul (hk.trans_le ?_)
  rw [pow_succ, Nat.mul_comm]
  exact Nat.mul_le_mul_right _ (UInt32.le_iff_toNat_le.mp h2)

theorem radix_ne_zero (h2 : 2 ≤ radix) : radix ≠ 0 := by
  rintro rfl
  exact absurd (UInt32.le_iff_toNat_le.mp h2) (by decide)

def ids (h2 : 2 ≤ radix) (h64 : radix ≤ 64) : PlaceSystem Char where
  symbols := allChars.toList
  radix := radix.toNat
  nodup := nodup_allChars
  two_le := UInt32.le_iff_toNat_le.mp h2
  enough := (UInt32.le_iff_toNat_le.mp h64).trans_eq length_allChars.symm

variable (h2 : 2 ≤ radix) (h64 : radix ≤ 64)

@[simp] theorem ids_symbols : (ids h2 h64).symbols = allChars.toList := rfl
@[simp] theorem ids_radix : (ids h2 h64).radix = radix.toNat := rfl
theorem value_ids (s : String) : (ids h2 h64).value s.toList = numeralValue radix s := rfl

theorem digit_ids_eq_zero_iff {c : Char} : (ids h2 h64).digit c = 0 ↔ c = '0' := by
  rw [PlaceSystem.digit, ids_symbols, allChars_eq_cons, List.idxOf_cons]
  by_cases hc : c = '0'
  · simp [hc]
  · have hne : ('0' == c) = false := beq_false_of_ne (Ne.symm hc)
    simp [hne, hc]

theorem canonical_ids_iff {s : String} : (ids h2 h64).Canonical s.toList ↔ IsNumeral radix s := by
  constructor
  · intro h
    refine ⟨fun hs => h.ne_nil (by rw [hs]; rfl),h.mem,?_⟩
    intro hhead
    obtain ⟨rest,hrest⟩ := List.head?_eq_some_iff.mp hhead
    have hnil := h.lead '0' rest hrest ((digit_ids_eq_zero_iff h2 h64).mpr rfl)
    rw [← String.toList_inj, hrest, hnil, toList_zero]
  · intro h
    refine ⟨fun hs => h.ne_empty (String.toList_inj.mp hs),h.mem,?_⟩
    intro c rest hs hc
    obtain rfl := (digit_ids_eq_zero_iff h2 h64).mp hc
    have hzero : s.toList = ['0'] := by
      rw [h.lead (List.head?_eq_some_iff.mpr ⟨rest,hs⟩), toList_zero]
    exact (List.cons.inj (hs.symm.trans hzero)).2

theorem stripPrefix_zero {s : String} (h : s.toList.head? ≠ some '0') : stripPrefix s "0" = none := by
  rw [stripPrefix, toList_zero]
  cases hs : s.toList with
  | nil => rfl
  | cons c rest =>
    have hc : '0' ≠ c := by
      rintro rfl
      exact h (by rw [hs]; rfl)
    simp [List.isPrefixOf?, hc]

/-- One level of the encoder: the text of the quotient gains the digit of the remainder. -/
theorem withLastDigit_spec {num : UInt64} {base : String}
    (hbase : (ids h2 h64).Canonical base.toList)
    (hval : (ids h2 h64).value base.toList = num.toNat / radix.toNat) :
    (ids h2 h64).Canonical (withLastDigit num radix base).toList ∧
      (ids h2 h64).value (withLastDigit num radix base).toList = num.toNat := by
  have hrem : (num % radix.toUInt64).toNat = num.toNat % radix.toNat := by
    rw [UInt64.toNat_mod, UInt32.toNat_toUInt64]
  have hlt : num.toNat % radix.toNat < (ids h2 h64).radix := Nat.mod_lt _ (ids h2 h64).radix_pos
  obtain ⟨c,hc,hsym,hdigit⟩ := PlaceSystem.exists_symbol hlt
  rw [ids_symbols] at hsym
  have hlast : (withLastDigit num radix base).toList =
      ((stripPrefix base "0").getD base).toList ++ [c] := by
    rw [withLastDigit, hrem, hsym, String.toList_append, String.toList_singleton]
  have hdiv : num.toNat / radix.toNat * radix.toNat + num.toNat % radix.toNat = num.toNat :=
    Nat.div_add_mod' _ _
  by_cases hzero : num.toNat / radix.toNat = 0
  · -- the text of the quotient is "0", and what stays is the last digit alone
    obtain ⟨z,-,hz,hz0⟩ := hbase.eq_singleton (hval.trans hzero)
    rw [(digit_ids_eq_zero_iff h2 h64).mp hz0] at hz
    have hstrip : stripPrefix base "0" = some "" := by
      rw [String.toList_inj.mp (hz.trans toList_zero.symm)]
      decide
    rw [hlast, hstrip, Option.getD_some, String.toList_empty, List.nil_append]
    refine ⟨PlaceSystem.Canonical.singleton hc,?_⟩
    rw [hzero, Nat.zero_mul, Nat.zero_add] at hdiv
    rw [PlaceSystem.value_singleton, hdigit, hdiv]
  · have hpos : (ids h2 h64).value base.toList ≠ 0 := hval ▸ hzero
    have hhead : base.toList.head? ≠ some '0' := by
      intro hhead
      obtain ⟨rest,hrest⟩ := List.head?_eq_some_iff.mp hhead
      rw [hrest] at hbase hpos
      exact hpos (hbase.digit_head_eq_zero_iff.mp ((digit_ids_eq_zero_iff h2 h64).mpr rfl))
    rw [hlast, stripPrefix_zero hhead, Option.getD_none]
    refine ⟨hbase.concat hpos hc,?_⟩
    rw [PlaceSystem.value_concat, hval, hdigit]
    exact hdiv

theorem text_zero : (ids h2 h64).Canonical "0".toList ∧ (ids h2 h64).value "0".toList = 0 := by
  obtain ⟨c,hc,-,hdigit⟩ := PlaceSystem.exists_symbol (ids h2 h64).radix_pos
  have htext : "0".toList = [c] := by rw [(digit_ids_eq_zero_iff h2 h64).mp hdigit, toList_zero]
  rw [htext, PlaceSystem.value_singleton]
  exact ⟨PlaceSystem.Canonical.singleton hc,hdigit⟩

/-- What the encoder returns is the text of its number, by induction on the nesting. -/
theorem base10ToNWithin_spec {depth : ℕ} {num : UInt64} {s : String}
    (h : base10ToNWithin depth num radix = some s) :
    (ids h2 h64).Canonical s.toList ∧ (ids h2 h64).value s.toList = num.toNat := by
  induction depth generalizing num s with
  | zero => cases h
  | succ depth ih =>
    rw [base10ToNWithin] at h
    split_ifs at h with hnum hradix
    · obtain rfl := Option.some.inj h
      obtain ⟨hcanon,hval⟩ := text_zero h2 h64
      exact ⟨hcanon,by rw [hval, hnum]; rfl⟩
    · obtain ⟨base,hbase,rfl⟩ := Option.map_eq_some_iff.mp h
      obtain ⟨hcanon,hval⟩ := ih hbase
      rw [UInt64.toNat_div, UInt32.toNat_toUInt64] at hval
      exact withLastDigit_spec h2 h64 hcanon hval

/-- One nested call for every bit of the number, and one for zero, is room enough. -/
theorem exists_base10ToNWithin (h2 : 2 ≤ radix) {k : ℕ} {num : UInt64} (hk : num.toNat < 2 ^ k) :
    ∃ s, base10ToNWithin (k + 1) num radix = some s := by
  induction k generalizing num with
  | zero =>
    have hnum : num = 0 := UInt64.toNat_inj.mp (Nat.lt_one_iff.mp hk)
    exact ⟨"0",by rw [base10ToNWithin, if_pos hnum]⟩
  | succ k ih =>
    rw [base10ToNWithin, if_neg (radix_ne_zero h2)]
    split_ifs with hnum
    · exact ⟨"0",rfl⟩
    · obtain ⟨base,hbase⟩ := ih (quotient_lt h2 hk)
      exact ⟨withLastDigit num radix base,by rw [hbase, Option.map_some]⟩

theorem base10ToN_spec (num : UInt64) :
    ∃ s, base10ToN num radix = some s ∧ (ids h2 h64).Canonical s.toList ∧
      (ids h2 h64).value s.toList = num.toNat := by
  obtain ⟨s,hs⟩ := exists_base10ToNWithin h2 num.toNat_lt
  exact ⟨s,hs,base10ToNWithin_spec h2 h64 hs⟩

theorem base10ToNWithin_mono {d d' : ℕ} (hd : d ≤ d') {num : UInt64} {s : String}
    (h : base10ToNWithin d num radix = some s) : base10ToNWithin d' num radix = some s := by
  induction d generalizing d' num s with
  | zero => cases h
  | succ d ih =>
    obtain ⟨d',rfl⟩ : ∃ e, d' = e + 1 := ⟨d' - 1,by omega⟩
    rw [base10ToNWithin] at h ⊢
    split_ifs at h ⊢ with hnum hradix
    · exact h
    · obtain ⟨base,hbase,rfl⟩ := Option.map_eq_some_iff.mp h
      rw [ih (by omega) hbase, Option.map_some]

/-- In a radix of zero or one only zero has a text: the recursion divides by zero or stays
where it is. -/
theorem base10ToNWithin_of_lt_two (hradix : radix < 2) {num : UInt64} (hnum : num ≠ 0) (depth : ℕ) :
    base10ToNWithin depth num radix = none := by
  induction depth with
  | zero => rfl
  | succ depth ih =>
    rw [base10ToNWithin, if_neg hnum]
    split_ifs with hzero
    · rfl
    · have hone : radix.toUInt64 = 1 := by
        rw [← UInt64.toNat_inj, UInt32.toNat_toUInt64]
        have hlt : radix.toNat < 2 := UInt32.lt_iff_toNat_lt.mp hradix
        have hne : radix.toNat ≠ 0 := fun h => hzero (UInt32.toNat_inj.mp h)
        have hword : (1 : UInt64).toNat = 1 := by decide
        omega
      rw [hone, UInt64.div_one, ih, Option.map_none]

/-- Whatever the recursion returns with any number of nested calls, 65 of them return. -/
theorem base10ToN_eq_some_iff {num : UInt64} {s : String} :
    base10ToN num radix = some s ↔ ∃ depth, base10ToNWithin depth num radix = some s := by
  constructor
  · exact fun h => ⟨65,h⟩
  · rintro ⟨depth,h⟩
    by_cases hnum : num = 0
    · cases depth with
      | zero => cases h
      | succ depth =>
        rw [base10ToNWithin, if_pos hnum] at h
        rw [base10ToN, base10ToNWithin, if_pos hnum, h]
    · have hradix : 2 ≤ radix := by
        by_contra hlt
        rw [base10ToNWithin_of_lt_two (UInt32.not_le.mp hlt) hnum] at h
        cases h
      obtain ⟨t,ht⟩ := exists_base10ToNWithin hradix num.toNat_lt
      have hs := base10ToNWithin_mono (Nat.le_add_right depth 65) h
      rw [base10ToNWithin_mono (Nat.le_add_left 65 depth) ht] at hs
      exact ht.trans hs

end Radix

/-! ## The decoder -/

/-- Both builds multiply exactly where the product fits into a word. -/
theorem mulU128_ofNat (overflow : Overflow) {a b : ℕ} (ha : a < 2 ^ 128) (hb : b < 2 ^ 128)
    (h : a * b < 2 ^ 128) :
    mulU128 overflow (BitVec.ofNat 128 a) (BitVec.ofNat 128 b) = some (BitVec.ofNat 128 (a * b)) := by
  rw [BitVec.ofNat_mul]
  cases overflow with
  | wraps => rfl
  | panics =>
    rw [mulU128, if_pos]
    rwa [BitVec.toNat_ofNat, BitVec.toNat_ofNat, Nat.mod_eq_of_lt ha, Nat.mod_eq_of_lt hb]

theorem addU128_ofNat (overflow : Overflow) {a b : ℕ} (h : a + b < 2 ^ 128) :
    addU128 overflow (BitVec.ofNat 128 a) (BitVec.ofNat 128 b) = some (BitVec.ofNat 128 (a + b)) := by
  rw [BitVec.ofNat_add]
  cases overflow with
  | wraps => rfl
  | panics =>
    have ha : a < 2 ^ 128 := (Nat.le_add_right a b).trans_lt h
    have hb : b < 2 ^ 128 := (Nat.le_add_left b a).trans_lt h
    rw [addU128, if_pos]
    rwa [BitVec.toNat_ofNat, BitVec.toNat_ofNat, Nat.mod_eq_of_lt ha, Nat.mod_eq_of_lt hb]

/-- A text of one-byte characters has as many bytes as characters. -/
theorem utf8ByteSize_eq_length {s : String} (h : ∀ c ∈ s.toList, c.utf8Size = 1) :
    s.utf8ByteSize = s.toList.length := by
  obtain ⟨cs,rfl⟩ : ∃ cs, s = String.ofList cs := ⟨s.toList,String.ofList_toList.symm⟩
  rw [String.toList_ofList] at h ⊢
  induction cs with
  | nil => rfl
  | cons c cs ih =>
    have hcons : String.ofList (c :: cs) = String.singleton c ++ String.ofList cs := by
      rw [← String.toList_inj, String.toList_append, String.toList_singleton, String.toList_ofList,
        String.toList_ofList, List.singleton_append]
    rw [hcons, String.utf8ByteSize_append, String.utf8ByteSize_singleton,
      ih (fun d hd => h d (List.mem_cons_of_mem c hd)), h c List.mem_cons_self, List.length_cons,
      Nat.add_comm]

theorem foldlM_range_succ {σ : Type} (turn : σ → ℕ → Option σ) (s : σ) (n : ℕ) :
    (List.range (n + 1)).foldlM turn s = ((List.range n).foldlM turn s).bind (fun s => turn s n) := by
  rw [List.range_succ, List.foldlM_append]
  simp

section Radix
variable {radix : UInt32} (h2 : 2 ≤ radix) (h64 : radix ≤ 64)

theorem position_eq_digit {c : Char} (hc : c ∈ (ids h2 h64).inUse) :
    (allChars.toList.findIdx? (· == c)).getD 0 = (ids h2 h64).digit c := by
  have hmem : c ∈ allChars.toList := PlaceSystem.mem_symbols hc
  have hfind : allChars.toList.findIdx? (· == c) = some (allChars.toList.findIdx (· == c)) :=
    List.findIdx?_eq_some_of_exists ⟨c,hmem,beq_self_eq_true c⟩
  rw [hfind]
  rfl

/-- One turn of the loop reads one more character, as long as the number fits. -/
theorem decodeAt_spec (overflow : Overflow) {numStr : String} {i : ℕ} {c : Char}
    (hi : numStr.toList[i]? = some c) (hc : c ∈ (ids h2 h64).inUse) (read : List Char)
    (hfit : (ids h2 h64).value (read ++ [c]) < 2 ^ 128) :
    decodeAt overflow numStr radix (BitVec.ofNat 128 ((ids h2 h64).value read)) i =
      some (BitVec.ofNat 128 ((ids h2 h64).value (read ++ [c]))) := by
  rw [PlaceSystem.value_concat, ids_radix] at hfit ⊢
  generalize (ids h2 h64).value read = v at hfit ⊢
  have hpos : 0 < radix.toNat := (ids h2 h64).radix_pos
  have hmul : v * radix.toNat < 2 ^ 128 := (Nat.le_add_right _ _).trans_lt hfit
  have hv : v < 2 ^ 128 := (Nat.le_mul_of_pos_right v hpos).trans_lt hmul
  have hr : radix.toNat < 2 ^ 128 := radix.toNat_lt.trans (by norm_num)
  rw [decodeAt, hi, Option.getD_some, position_eq_digit h2 h64 hc, mulU128_ofNat overflow hv hr hmul,
    Option.bind_some, addU128_ofNat overflow hfit]

/-- The invariant of the loop: it holds the number of the characters it has read. -/
theorem foldlM_decodeAt (overflow : Overflow) {numStr : String}
    (hmem : ∀ c ∈ numStr.toList, c ∈ (ids h2 h64).inUse)
    (hfit : (ids h2 h64).value numStr.toList < 2 ^ 128) (n : ℕ) (hn : n ≤ numStr.toList.length) :
    (List.range n).foldlM (decodeAt overflow numStr radix) 0 =
      some (BitVec.ofNat 128 ((ids h2 h64).value (numStr.toList.take n))) := by
  induction n with
  | zero => rfl
  | succ n ih =>
    have hlt : n < numStr.toList.length := hn
    have htake : numStr.toList.take (n + 1) = numStr.toList.take n ++ [numStr.toList[n]] :=
      List.take_succ_eq_append_getElem hlt
    have hread : (ids h2 h64).value (numStr.toList.take (n + 1)) < 2 ^ 128 := by
      have hle := PlaceSystem.value_le_append (p := ids h2 h64) (numStr.toList.take (n + 1))
        (numStr.toList.drop (n + 1))
      rw [List.take_append_drop] at hle
      exact hle.trans_lt hfit
    rw [htake] at hread ⊢
    rw [foldlM_range_succ, ih hlt.le, Option.bind_some]
    exact decodeAt_spec h2 h64 overflow (List.getElem?_eq_getElem hlt) (hmem _ (List.getElem_mem hlt))
      _ hread

theorem baseNTo10_spec (overflow : Overflow) {numStr : String}
    (h : (ids h2 h64).Canonical numStr.toList)
    (hfit : (ids h2 h64).value numStr.toList < 2 ^ 128) :
    baseNTo10 overflow numStr radix =
      some (BitVec.ofNat 128 ((ids h2 h64).value numStr.toList)) := by
  have hsize : numStr.utf8ByteSize = numStr.toList.length :=
    utf8ByteSize_eq_length (fun c hc => utf8Size_allChars (PlaceSystem.mem_symbols (h.mem c hc)))
  rw [baseNTo10, hsize, foldlM_decodeAt h2 h64 overflow h.mem hfit _ le_rfl, List.take_length]

end Radix

/-- Ids of 64 bits and their canonical texts in one radix are each other's image, and the
decoder overflows on none of them. -/
theorem radix_text_round_trip {radix : UInt32} (h2 : 2 ≤ radix) (h64 : radix ≤ 64)
    (overflow : Overflow) :
    (∀ num : UInt64, ∃ s, base10ToN num radix = some s ∧ IsNumeral radix s ∧
      numeralValue radix s = num.toNat ∧
      baseNTo10 overflow s radix = some (BitVec.ofNat 128 num.toNat)) ∧
    ∀ s, IsNumeral radix s → numeralValue radix s < 2 ^ 64 →
      ∃ result, baseNTo10 overflow s radix = some result ∧ result.toNat = numeralValue radix s ∧
        base10ToN (UInt64.ofNat result.toNat) radix = some s := by
  have hwide : (2 : ℕ) ^ 64 < 2 ^ 128 := by norm_num
  constructor
  · intro num
    obtain ⟨s,hs,hcanon,hval⟩ := base10ToN_spec h2 h64 num
    have hfit : (ids h2 h64).value s.toList < 2 ^ 128 := hval ▸ num.toNat_lt.trans hwide
    refine ⟨s,hs,(canonical_ids_iff h2 h64).mp hcanon,hval,?_⟩
    rw [baseNTo10_spec h2 h64 overflow hcanon hfit, hval]
  · intro s hs hlt
    have hcanon := (canonical_ids_iff h2 h64).mpr hs
    have hread : (BitVec.ofNat 128 (numeralValue radix s)).toNat = numeralValue radix s := by
      rw [BitVec.toNat_ofNat, Nat.mod_eq_of_lt (hlt.trans hwide)]
    obtain ⟨t,ht,htcanon,htval⟩ := base10ToN_spec h2 h64 (UInt64.ofNat (numeralValue radix s))
    rw [UInt64.toNat_ofNat', Nat.mod_eq_of_lt hlt, ← value_ids h2 h64] at htval
    have heq : t = s := String.toList_inj.mp (htcanon.eq_of_value_eq hcanon htval)
    refine ⟨BitVec.ofNat 128 (numeralValue radix s),
      baseNTo10_spec h2 h64 overflow hcanon (hlt.trans hwide),hread,?_⟩
    rw [hread, ht, heq]

theorem radix_text_round_trip_36 :
    (∃ s, base10ToN 6888076346770202619 36 = some s ∧
      baseNTo10 .panics s 36 = some (BitVec.ofNat 128 6888076346770202619)) ∧
    IsNumeral 36 "1gbyra5idyk8r" ∧ numeralValue 36 "1gbyra5idyk8r" < 2 ^ 64 ∧
      ∃ result, baseNTo10 .panics "1gbyra5idyk8r" 36 = some result ∧
        base10ToN (UInt64.ofNat result.toNat) 36 = some "1gbyra5idyk8r" := by
  have h2 : (2 : UInt32) ≤ 36 := by decide
  have h64 : (36 : UInt32) ≤ 64 := by decide
  have hall : "1gbyra5idyk8r".toList.all (fun c => decide (c ∈ allChars.toList.take 36)) = true := by
    decide
  have hs : IsNumeral 36 "1gbyra5idyk8r" :=
    ⟨by decide,fun c hc => of_decide_eq_true (List.all_eq_true.mp hall c hc),by decide⟩
  have hlt : numeralValue 36 "1gbyra5idyk8r" < 2 ^ 64 := by decide
  obtain ⟨hids,htexts⟩ := radix_text_round_trip h2 h64 .panics
  obtain ⟨s,hid,-,-,hread⟩ := hids 6888076346770202619
  obtain ⟨result,hresult,-,hback⟩ := htexts "1gbyra5idyk8r" hs hlt
  exact ⟨⟨s,hid,hread⟩,hs,hlt,result,hresult,hback⟩

example : base10ToN 6888076346770202619 36 = some "1gbyra5idyk8r" := by decide +kernel

end GameServer.Server
