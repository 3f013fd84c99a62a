import Mathlib.Algebra.Group.Nat.Defs
import Mathlib.Data.Nat.Notation
import Mathlib.Data.List.Basic

/-!
# Object identifiers

An object identifier is a path of numbers. Its encoding packs the first two into one
number and spells each number in base 128, the most significant digit first, every
digit but the last one marked. The dotted form is read from the octets with the first
two arcs taken from the first octet alone, and with each number in sixty-four bits:
it is the decimal form of the path exactly when these two shortcuts lose nothing.
-/

namespace Kerbridge.ObjectIds

/-- A path of numbers, of which the first two are packed into one. -/
structure Oid where
  first : ℕ
  second : ℕ
  rest : List ℕ
  first_le : first ≤ 2
  second_lt : first < 2 → second < 40

/-- The numbers of a path. -/
def Oid.arcs (o : Oid) : List ℕ := o.first :: o.second :: o.rest

/-- The marked digits of a number in base 128; a round for each digit is enough. -/
def marked : ℕ → ℕ → List UInt8
  | 0, _ => []
  | rounds + 1, n => if n = 0 then [] else marked rounds (n / 128) ++ [UInt8.ofNat (128 + n % 128)]

/-- A number in base 128. -/
def base128 (n : ℕ) : List UInt8 := marked n (n / 128) ++ [UInt8.ofNat (n % 128)]

/-- The octets of an object identifier. -/
def Oid.encode (o : Oid) : List UInt8 := ((40 * o.first + o.second) :: o.rest).flatMap base128

/-- A path as decimal numbers with dots between them. -/
def Oid.decimal (o : Oid) : String := ".".intercalate (o.arcs.map toString)

/-- The loop of `dotted`, over integers of so many values. -/
def arcsLoop (values : ℕ) : ℕ → List UInt8 → List ℕ
  | _, [] => []
  | arc, byte :: rest =>
    let arc := (arc * 128 + byte.toNat % 128) % values
    if byte.toNat < 128 then arc :: arcsLoop values 0 rest else arcsLoop values arc rest

/-- An object identifier's dotted form, as it is read from its octets. -/
def dotted : List UInt8 → String
  | [] => "?"
  | first :: rest => ".".intercalate
      ((first.toNat / 40 :: first.toNat % 40 :: arcsLoop (2 ^ 64) 0 rest).map toString)

/-- A path whose first two arcs are in the first octet by forties, and whose other arcs
sixty-four bits hold. -/
def Oid.Plain (o : Oid) : Prop := o.second < 40 ∧ ∀ a ∈ o.rest, a < 2 ^ 64

instance (o : Oid) : Decidable o.Plain := inferInstanceAs (Decidable (_ ∧ _))

/-- The marked digits of a number are gathered. -/
theorem arcsLoop_marked (values : ℕ) {rounds n : ℕ} (h : n ≤ rounds) (tail : List UInt8) :
    arcsLoop values 0 (marked rounds n ++ tail) = arcsLoop values (n % values) tail := by
  induction rounds generalizing n tail with
  | zero =>
    obtain rfl : n = 0 := by omega
    rw [marked, List.nil_append, Nat.zero_mod]
  | succ rounds ih =>
    rw [marked]
    split
    · rename_i hzero
      rw [hzero, List.nil_append, Nat.zero_mod]
    · have hbyte : (UInt8.ofNat (128 + n % 128)).toNat = 128 + n % 128 := by
        rw [UInt8.toNat_ofNat']
        omega
      have hdigit : (n / 128 % values * 128 + (128 + n % 128) % 128) % values = n % values := by
        rw [show (128 + n % 128) % 128 = n % 128 by omega, Nat.add_mod, Nat.mod_mul_mod, ← Nat.add_mod,
          Nat.div_add_mod']
      rw [List.append_assoc, ih (by omega), List.singleton_append, arcsLoop, hbyte]
      rw [if_neg (by omega), hdigit]

/-- A number in base 128 is gathered, as far as its type reaches. -/
theorem arcsLoop_base128 (values n : ℕ) (tail : List UInt8) :
    arcsLoop values 0 (base128 n ++ tail) = n % values :: arcsLoop values 0 tail := by
  have hbyte : (UInt8.ofNat (n % 128)).toNat = n % 128 := by
    rw [UInt8.toNat_ofNat']
    omega
  have hdigit : (n / 128 % values * 128 + n % 128 % 128) % values = n % values := by
    rw [Nat.mod_mod, Nat.add_mod, Nat.mod_mul_mod, ← Nat.add_mod, Nat.div_add_mod']
  rw [base128, List.append_assoc, arcsLoop_marked values (Nat.div_le_self n 128), List.singleton_append,
    arcsLoop, hbyte]
  rw [if_pos (by omega), hdigit]

/-- Numbers in base 128 are gathered one after another. -/
theorem arcsLoop_flatMap (values : ℕ) (l : List ℕ) :
    arcsLoop values 0 (l.flatMap base128) = l.map (· % values) := by
  induction l with
  | nil => rfl
  | cons n l ih => rw [List.flatMap_cons, arcsLoop_base128, ih, List.map_cons]

/-- An object identifier is read back from its octets. -/
theorem Oid.encode_injective {o o' : Oid} (h : o.encode = o'.encode) : o.arcs = o'.arcs := by
  -- A remainder by zero is the number itself.
  have hnumbers := congrArg (arcsLoop 0 0) h
  unfold encode at hnumbers
  rw [arcsLoop_flatMap, arcsLoop_flatMap] at hnumbers
  simp only [Nat.mod_zero, List.map_id', List.cons.injEq] at hnumbers
  obtain ⟨hpacked, hrest⟩ := hnumbers
  have hfirst := o.first_le
  have hsecond := o.second_lt
  have hfirst' := o'.first_le
  have hsecond' := o'.second_lt
  unfold arcs
  rw [hrest, show o.first = o'.first by omega, show o.second = o'.second by omega]

/-- The first marked digit of a number is not zero. -/
theorem marked_head {rounds n : ℕ} (hn : 0 < n) (h : n ≤ rounds) :
    ∃ b rest, marked rounds n = b :: rest ∧ 128 < b.toNat := by
  induction rounds generalizing n with
  | zero => omega
  | succ rounds ih =>
    rw [marked, if_neg (by omega)]
    by_cases hsmall : n < 128
    · have hnone : marked rounds (n / 128) = [] := by
        rw [Nat.div_eq_of_lt hsmall]
        cases rounds with
        | zero => rfl
        | succ rounds => rfl
      refine ⟨UInt8.ofNat (128 + n % 128), [], by rw [hnone]; rfl, ?_⟩
      rw [UInt8.toNat_ofNat']
      omega
    · obtain ⟨b, rest, hmarked, hb⟩ := ih (n := n / 128) (by omega) (by omega)
      exact ⟨b, rest ++ [UInt8.ofNat (128 + n % 128)], by rw [hmarked]; rfl, hb⟩

/-- Decimal numbers with dots between them are told apart. -/
theorem decimal_injective {l l' : List ℕ} (hl : l ≠ []) (hl' : l' ≠ [])
    (h : ".".intercalate (l.map toString) = ".".intercalate (l'.map toString)) : l = l' := by
  have hfields : ∀ {l : List ℕ}, l ≠ [] →
      (".".intercalate (l.map toString)).toList.splitOn '.' = l.map (Nat.toDigits 10) := by
    intro l hl
    have hdigits : (l.map toString).map String.toList = l.map (Nat.toDigits 10) := by simp
    rw [String.toList_intercalate, hdigits]
    refine List.splitOn_intercalate '.' ?_ (by simpa using hl)
    intro digits hmem hdot
    obtain ⟨n, -, rfl⟩ := List.mem_map.mp hmem
    have hdigit := Nat.isDigit_of_mem_toDigits (by decide) (by decide) hdot
    simp at hdigit
  have hsame := congrArg (fun s => s.toList.splitOn '.') h
  simp only [hfields hl, hfields hl'] at hsame
  refine List.map_injective_iff.mpr ?_ hsame
  intro a b hab
  have hvalue := congrArg (Nat.ofDigitChars 10 · 0) hab
  simpa only [Nat.ofDigitChars_toDigits (b := 10) (by decide) (by decide)] using hvalue

/-- The first octet of a path: its packed number when that is below 128, and else a marked
digit that is not zero. -/
theorem Oid.encode_head (o : Oid) : ∃ b rest, o.encode = b :: rest ∧
    (40 * o.first + o.second < 128 → b.toNat = 40 * o.first + o.second ∧
      rest = o.rest.flatMap base128) ∧
    (128 ≤ 40 * o.first + o.second → 128 < b.toNat) := by
  unfold encode
  rw [List.flatMap_cons, base128]
  by_cases hsmall : 40 * o.first + o.second < 128
  · have hnone : marked (40 * o.first + o.second) ((40 * o.first + o.second) / 128) = [] := by
      rw [Nat.div_eq_of_lt hsmall]
      cases 40 * o.first + o.second with
      | zero => rfl
      | succ n => rfl
    refine ⟨_, _, by rw [hnone]; rfl, fun _ => ⟨?_, rfl⟩, fun hlarge => by omega⟩
    rw [UInt8.toNat_ofNat']
    omega
  · obtain ⟨b, rest, hmarked, hb⟩ := @marked_head (40 * o.first + o.second)
      ((40 * o.first + o.second) / 128) (by omega) (Nat.div_le_self _ _)
    exact ⟨b, _, by rw [hmarked]; rfl, fun h => absurd h hsmall, fun _ => hb⟩

/-- The dotted form of a path's octets is its decimal form exactly when the path is plain. -/
theorem dotted_encode_iff (o : Oid) : dotted o.encode = o.decimal ↔ o.Plain := by
  have hfirst := o.first_le
  have hsecond := o.second_lt
  obtain ⟨b, rest, hencode, hsmall, hlarge⟩ := o.encode_head
  rw [hencode, dotted, Oid.decimal, Oid.arcs]
  constructor
  · intro h
    have harcs := decimal_injective (by simp) (by simp) h
    simp only [List.cons.injEq] at harcs
    obtain ⟨harc, -, hrest⟩ := harcs
    have hpacked : 40 * o.first + o.second < 128 := by
      by_contra hpacked
      have hb := hlarge (by omega)
      omega
    obtain ⟨hb, rfl⟩ := hsmall hpacked
    rw [arcsLoop_flatMap, ← List.map_id o.rest, List.map_map, List.map_inj_left] at hrest
    refine ⟨by omega, fun a ha => ?_⟩
    have hmod : a % 2 ^ 64 = a := hrest a ha
    omega
  · rintro ⟨hforty, hrest⟩
    obtain ⟨hb, rfl⟩ := hsmall (by omega)
    have hsame : o.rest.map (· % 2 ^ 64) = o.rest := by
      rw [List.map_congr_left fun a ha => Nat.mod_eq_of_lt (hrest a ha), List.map_id']
    rw [arcsLoop_flatMap, hsame, hb, show (40 * o.first + o.second) / 40 = o.first by omega,
      show (40 * o.first + o.second) % 40 = o.second by omega]

end Kerbridge.ObjectIds
