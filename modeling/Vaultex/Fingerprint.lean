import Mathlib.Data.Sym.Sym2
import Mathlib.Data.Nat.Notation

/-!
# Fingerprints

Two values put in order, a row cut into blocks and numbers written as groups
of digits: the steps of a fingerprint that people compare, none of which
loses anything.
-/

set_option autoImplicit false

namespace Vaultex.Fingerprint

section
variable {α : Type*} (r : α → α → Prop) [DecidableRel r]

def sortPair (a b : α) : α × α := if r a b then (a,b) else (b,a)

theorem mk_sortPair (a b : α) : s((sortPair r a b).1,(sortPair r a b).2) = s(a,b) := by
  by_cases h : r a b
  · rw [sortPair, if_pos h]
  · rw [sortPair, if_neg h]
    exact Sym2.eq_swap

variable [Std.Total r] [Std.Antisymm r]

theorem sortPair_comm (a b : α) : sortPair r a b = sortPair r b a := by
  by_cases hab : r a b
  · by_cases hba : r b a
    · rw [Std.Antisymm.antisymm a b hab hba]
    · rw [sortPair, sortPair, if_pos hab, if_neg hba]
  · have hba : r b a := (Std.Total.total a b).resolve_left hab
    rw [sortPair, sortPair, if_neg hab, if_pos hba]

/-- A sorted pair tells which two values it holds, and nothing else. -/
theorem sortPair_eq_iff {a b c d : α} :
    sortPair r a b = sortPair r c d ↔ s(a,b) = s(c,d) := by
  constructor
  · intro h
    rw [← mk_sortPair r a b, ← mk_sortPair r c d, h]
  · intro h
    rcases Sym2.eq_iff.mp h with ⟨hac,hbd⟩ | ⟨had,hbc⟩
    · rw [hac, hbd]
    · rw [had, hbc]
      exact sortPair_comm r d c

end

/-- Rows that agree block by block agree as far as the blocks reach. -/
theorem take_eq_take_iff_blocks {α : Type*} {xs ys : List α} {n k : ℕ} :
    xs.take (n*k) = ys.take (n*k) ↔ ∀ i < n, ∀ j < k, xs[i*k+j]? = ys[i*k+j]? := by
  constructor
  · intro h i hi j hj
    have hlt : i*k+j < n*k :=
      calc i*k+j < i*k+k := Nat.add_lt_add_left hj _
        _ = (i+1)*k := (Nat.succ_mul i k).symm
        _ ≤ n*k := Nat.mul_le_mul_right k hi
    have hget := congrArg (fun zs : List α => zs[i*k+j]?) h
    simpa only [List.getElem?_take, if_pos hlt] using hget
  · intro h
    apply List.ext_getElem?
    intro m
    by_cases hm : m < n*k
    · have hk : 0 < k := Nat.pos_of_mul_pos_left (Nat.zero_lt_of_lt hm)
      have hblock := h (m/k) (Nat.div_lt_of_lt_mul (by rwa [Nat.mul_comm])) (m%k)
        (Nat.mod_lt m hk)
      rw [Nat.div_add_mod'] at hblock
      simpa only [List.getElem?_take, if_pos hm] using hblock
    · simp only [List.getElem?_take, if_neg hm]

/-- A decimal numeral, filled up with zeros on the left. -/
def zeroPadded (width n : ℕ) : String :=
  String.ofList ((Nat.toDigits 10 n).leftpad width '0')

theorem zeroPadded_toList (width n : ℕ) : (zeroPadded width n).toList =
    List.replicate (width-(Nat.toDigits 10 n).length) '0'++Nat.toDigits 10 n := by
  rw [zeroPadded, String.toList_ofList, List.leftpad]

theorem zeroPadded_digits {width n : ℕ} {c : Char} (h : c ∈ (zeroPadded width n).toList) :
    c.isDigit := by
  rw [zeroPadded_toList, List.mem_append] at h
  rcases h with hzero | hdigit
  · rw [List.eq_of_mem_replicate hzero]
    decide
  · exact Nat.isDigit_of_mem_toDigits (by decide) (by decide) hdigit

theorem zeroPadded_value (width n : ℕ) :
    Nat.ofDigitChars 10 (zeroPadded width n).toList 0 = n := by
  rw [zeroPadded_toList, Nat.ofDigitChars_append, Nat.ofDigitChars_replicate_zero, Nat.mul_zero,
    Nat.ofDigitChars_toDigits (by decide) (by decide)]

theorem zeroPadded_length {width n : ℕ} (hwidth : 0 < width) (h : n < 10^width) :
    (zeroPadded width n).length = width := by
  have hdigits : (Nat.toDigits 10 n).length ≤ width :=
    (Nat.length_toDigits_le_iff (by decide) hwidth).mpr h
  rw [← String.length_toList, zeroPadded_toList, List.length_append, List.length_replicate]
  omega

def writeGroups (sep : Char) (width : ℕ) (ns : List ℕ) : String :=
  (String.singleton sep).intercalate (ns.map (zeroPadded width))

def readGroups (sep : Char) (text : String) : List ℕ :=
  (text.toList.splitOn sep).map fun group => Nat.ofDigitChars 10 group 0

theorem splitOn_writeGroups {sep : Char} (hsep : ¬sep.isDigit) (width : ℕ) {ns : List ℕ}
    (hns : ns ≠ []) : (writeGroups sep width ns).toList.splitOn sep =
      ns.map fun n => (zeroPadded width n).toList := by
  have hgroups : ∀ group ∈ ns.map fun n => (zeroPadded width n).toList, sep ∉ group := by
    intro group hgroup hmem
    obtain ⟨n,-,rfl⟩ := List.mem_map.mp hgroup
    exact hsep (zeroPadded_digits hmem)
  rw [writeGroups, String.toList_intercalate, String.toList_singleton, List.map_map]
  exact List.splitOn_intercalate sep hgroups (by simpa using hns)

/-- Groups are read back, however wide the numbers in them are. -/
theorem readGroups_writeGroups {sep : Char} (hsep : ¬sep.isDigit) (width : ℕ) {ns : List ℕ}
    (hns : ns ≠ []) : readGroups sep (writeGroups sep width ns) = ns := by
  rw [readGroups, splitOn_writeGroups hsep width hns, List.map_map]
  calc ns.map _ = ns.map id := List.map_congr_left fun n _ => zeroPadded_value width n
    _ = ns := List.map_id ns

theorem writeGroups_inj {sep : Char} (hsep : ¬sep.isDigit) {width : ℕ} {ns ms : List ℕ}
    (hns : ns ≠ []) (hms : ms ≠ []) (h : writeGroups sep width ns = writeGroups sep width ms) :
    ns = ms := by
  have hread := congrArg (readGroups sep) h
  rwa [readGroups_writeGroups hsep width hns, readGroups_writeGroups hsep width hms] at hread

/-- Joined texts are read back when none of them has the separator in it. -/
theorem joined_inj {sep : Char} {ss ts : List String} (hss : ∀ s ∈ ss, sep ∉ s.toList)
    (hts : ∀ t ∈ ts, sep ∉ t.toList) (hs : ss ≠ []) (ht : ts ≠ [])
    (h : (String.singleton sep).intercalate ss = (String.singleton sep).intercalate ts) :
    ss = ts := by
  have hsplit {us : List String} (hus : ∀ u ∈ us, sep ∉ u.toList) (hu : us ≠ []) :
      ((String.singleton sep).intercalate us).toList.splitOn sep = us.map String.toList := by
    rw [String.toList_intercalate, String.toList_singleton]
    refine List.splitOn_intercalate sep ?_ (by simpa using hu)
    intro group hgroup
    obtain ⟨u,hmem,rfl⟩ := List.mem_map.mp hgroup
    exact hus u hmem
  have hgroups := congrArg (fun text => text.toList.splitOn sep) h
  simp only [hsplit hss hs, hsplit hts ht] at hgroups
  exact (List.map_injective_iff.mpr fun _ _ => String.toList_inj.mp) hgroups

end Vaultex.Fingerprint
