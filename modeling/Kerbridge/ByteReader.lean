import Mathlib.Data.List.Basic

/-!
# Reading a byte string from a position

A reader takes a value from a position of a fixed byte string and says where the
next one begins. Slices outside the string, and loops that make no progress, are
failures of their own, so that a reader can be shown free of them. Three relations
say what a reader does, and each is kept by sequencing and by counted repetition.
-/

namespace Kerbridge.ByteReader

/-- Why reading stopped. -/
inductive Fault where
  /-- Fewer bytes were left than wanted at a position. -/
  | truncated (wanted position : ℕ)
  /-- What was read is refused. -/
  | refused (why : String)
  /-- A slice or a conversion outside its bounds. -/
  | outOfRange
  /-- A loop that did not reach the end of the string. -/
  | endless
  deriving DecidableEq

/-- A failure a well-behaved reader may end in. -/
def Fault.Ordinary (e : Fault) : Prop := e ≠ .outOfRange ∧ e ≠ .endless

/-- A reader: a value, and the position behind it. -/
def Reader (α : Type) : Type := List UInt8 → ℕ → Except Fault (α × ℕ)

variable {α β γ δ : Type}

/-- Reading nothing. -/
def Reader.pure (a : α) : Reader α := fun _ pos => .ok (a, pos)

/-- Reading one value, then another that may depend on it. -/
def Reader.bind (r : Reader α) (f : α → Reader β) : Reader β := fun b pos =>
  match r b pos with
  | .error e => .error e
  | .ok (a, next) => f a b next

instance : Monad Reader where
  pure := Reader.pure
  bind := Reader.bind

/-- Nothing is read, and the position stays. -/
@[simp] theorem pure_run (a : α) (b : List UInt8) (pos : ℕ) :
    (Pure.pure a : Reader α) b pos = .ok (a, pos) := rfl

/-- The second reader starts where the first one stopped. -/
theorem bind_run (r : Reader α) (f : α → Reader β) (b : List UInt8) (pos : ℕ) :
    (r >>= f) b pos =
      match r b pos with
      | .error e => .error e
      | .ok (a, next) => f a b next := rfl

/-- Reading ends in a failure. -/
def fail (e : Fault) : Reader α := fun _ _ => .error e

/-- A slice of the string, if it lies inside. -/
def slice (b : List UInt8) (start stop : ℕ) : Option (List UInt8) :=
  if start ≤ stop ∧ stop ≤ b.length then some ((b.drop start).take (stop - start)) else none

/-- The next bytes, as many as wanted. -/
def take (n : ℕ) : Reader (List UInt8) := fun b pos =>
  if pos + n ≤ b.length then
    match slice b pos (pos + n) with
    | some bytes => .ok (bytes, pos + n)
    | none => .error .outOfRange
  else .error (.truncated n pos)

/-- Bytes that are passed over. -/
def skip (n : ℕ) : Reader Unit := do
  let _ ← take n
  return ()

/-- Sixteen bits, the most significant byte first. -/
def u16 : Reader UInt16 := do
  match ← take 2 with
  | [a, b] => return UInt16.ofNat (256 * a.toNat + b.toNat)
  | _ => fail .outOfRange

/-- Thirty-two bits, the most significant byte first. -/
def u32 : Reader UInt32 := do
  match ← take 4 with
  | [a, b, c, d] =>
    return UInt32.ofNat (256 * (256 * (256 * a.toNat + b.toNat) + c.toNat) + d.toNat)
  | _ => fail .outOfRange

/-- A value read so many times. -/
def times (r : Reader α) : ℕ → Reader (List α)
  | 0 => return []
  | n + 1 => do
    let a ← r
    let rest ← times r n
    return a :: rest

/-- A value read until the end of the string, within a number of rounds. -/
def untilEnd (r : Reader α) : ℕ → Reader (List α)
  | 0 => fun b pos => if pos < b.length then .error .endless else .ok ([], pos)
  | rounds + 1 => fun b pos =>
    if pos < b.length then
      (do
        let a ← r
        let rest ← untilEnd r rounds
        return a :: rest : Reader (List α)) b pos
    else .ok ([], pos)

/-- At the end of the string nothing more is read. -/
theorem untilEnd_done {r : Reader α} {rounds : ℕ} {b : List UInt8} {pos : ℕ}
    (h : ¬ pos < b.length) : untilEnd r rounds b pos = .ok ([], pos) := by
  cases rounds with
  | zero => exact if_neg h
  | succ rounds => exact if_neg h

/-- Before the end of the string one more value is read. -/
theorem untilEnd_more {r : Reader α} {rounds : ℕ} {b : List UInt8} {pos : ℕ}
    (h : pos < b.length) : untilEnd r (rounds + 1) b pos =
      (r >>= fun a => untilEnd r rounds >>= fun rest => Pure.pure (a :: rest)) b pos :=
  if_pos h

section Bounds

/-- A reader stays inside the string: it goes forward by at least so many bytes and never
past the end, and fails only in an ordinary way. -/
def Inside (least : ℕ) (r : Reader α) : Prop :=
  ∀ b pos, pos ≤ b.length →
    match r b pos with
    | .ok (_, next) => pos + least ≤ next ∧ next ≤ b.length
    | .error e => e.Ordinary

/-- Reading nothing stays inside. -/
theorem Inside.pure (a : α) : Inside 0 (Pure.pure a : Reader α) := by
  intro b pos hpos
  exact ⟨Nat.le_refl _, hpos⟩

/-- An ordinary failure stays inside. -/
theorem Inside.fail {e : Fault} (he : e.Ordinary) (least : ℕ) :
    Inside least (fail e : Reader α) := by
  intro b pos _
  exact he

/-- Two readers that stay inside do so one after the other. -/
theorem Inside.bind {m n : ℕ} {r : Reader α} {f : α → Reader β} (hr : Inside m r)
    (hf : ∀ a, Inside n (f a)) : Inside (m + n) (r >>= f) := by
  intro b pos hpos
  have hfirst := hr b pos hpos
  rw [bind_run]
  cases h : r b pos with
  | error e =>
    rw [h] at hfirst
    exact hfirst
  | ok p =>
    obtain ⟨a, next⟩ := p
    rw [h] at hfirst
    have hsecond := hf a b next hfirst.2
    dsimp only
    cases h' : f a b next with
    | error e =>
      rw [h'] at hsecond
      exact hsecond
    | ok q =>
      rw [h'] at hsecond
      exact ⟨by omega, hsecond.2⟩

/-- What follows may go forward by anything. -/
theorem Inside.seq {m : ℕ} {r : Reader α} {f : α → Reader β} (hr : Inside m r)
    (hf : ∀ a, Inside 0 (f a)) : Inside m (r >>= f) :=
  hr.bind hf

/-- A reader that goes forward by more goes forward by less. -/
theorem Inside.mono {m n : ℕ} {r : Reader α} (hr : Inside n r) (h : m ≤ n) : Inside m r := by
  intro b pos hpos
  have hread := hr b pos hpos
  cases h' : r b pos with
  | error e =>
    rw [h'] at hread
    exact hread
  | ok p =>
    rw [h'] at hread
    exact ⟨by omega, hread.2⟩

/-- How far a reader goes forward may be left open. -/
theorem Inside.any {m : ℕ} {r : Reader α} (hr : Inside m r) : Inside 0 r := hr.mono (Nat.zero_le m)

/-- The bytes that are taken are as many as wanted, and were there. -/
theorem take_run {n : ℕ} {b : List UInt8} {pos : ℕ} (h : pos + n ≤ b.length) :
    take n b pos = .ok ((b.drop pos).take n, pos + n) := by
  unfold take slice
  rw [if_pos h, if_pos ⟨by omega, h⟩, Nat.add_sub_cancel_left]

/-- Too few bytes are an ordinary failure. -/
theorem take_short {n : ℕ} {b : List UInt8} {pos : ℕ} (h : ¬ pos + n ≤ b.length) :
    take n b pos = .error (.truncated n pos) := by
  unfold take
  rw [if_neg h]

/-- Taking bytes stays inside. -/
theorem inside_take (n : ℕ) : Inside n (take n) := by
  intro b pos hpos
  by_cases h : pos + n ≤ b.length
  · rw [take_run h]
    exact ⟨Nat.le_refl _, h⟩
  · rw [take_short h]
    exact ⟨by simp, by simp⟩

/-- Passing bytes over stays inside. -/
theorem inside_skip (n : ℕ) : Inside n (skip n) :=
  (inside_take n).bind fun _ => Inside.pure ()

/-- Sixteen bits are two bytes, which are there. -/
theorem inside_u16 : Inside 2 u16 := by
  intro b pos hpos
  by_cases h : pos + 2 ≤ b.length
  · have hlen : ((b.drop pos).take 2).length = 2 := by
      rw [List.length_take, List.length_drop]
      omega
    obtain ⟨x, y, hxy⟩ := List.length_eq_two.mp hlen
    unfold u16
    rw [bind_run, take_run h, hxy]
    exact ⟨Nat.le_refl _, h⟩
  · unfold u16
    rw [bind_run, take_short h]
    exact ⟨by simp, by simp⟩

/-- Thirty-two bits are four bytes, which are there. -/
theorem inside_u32 : Inside 4 u32 := by
  intro b pos hpos
  by_cases h : pos + 4 ≤ b.length
  · have hlen : ((b.drop pos).take 4).length = 4 := by
      rw [List.length_take, List.length_drop]
      omega
    unfold u32
    rw [bind_run, take_run h]
    match (b.drop pos).take 4, hlen with
    | [x, y, z, w], _ => exact ⟨Nat.le_refl _, h⟩
  · unfold u32
    rw [bind_run, take_short h]
    exact ⟨by simp, by simp⟩

/-- Reading several times stays inside. -/
theorem Inside.times {m : ℕ} {r : Reader α} (hr : Inside m r) (n : ℕ) : Inside 0 (times r n) := by
  induction n with
  | zero => exact Inside.pure []
  | succ n ih =>
    rw [ByteReader.times]
    exact (hr.bind fun _ => ih.bind fun _ => Inside.pure _).mono (Nat.zero_le _)

/-- A reader that goes forward reaches the end, given a round for each byte. -/
theorem Inside.untilEnd {r : Reader α} (hr : Inside 1 r) {rounds : ℕ} {b : List UInt8} {pos : ℕ}
    (hpos : pos ≤ b.length) (hrounds : b.length ≤ pos + rounds) :
    match untilEnd r rounds b pos with
    | .ok (_, next) => next = b.length
    | .error e => e.Ordinary := by
  induction rounds generalizing pos with
  | zero =>
    rw [untilEnd_done (by omega)]
    dsimp only
    omega
  | succ rounds ih =>
    by_cases hmore : pos < b.length
    · rw [untilEnd_more hmore, bind_run]
      have hread := hr b pos hpos
      cases h : r b pos with
      | error e =>
        rw [h] at hread
        exact hread
      | ok p =>
        obtain ⟨a, next⟩ := p
        rw [h] at hread
        have hrest := ih hread.2 (by omega)
        dsimp only
        rw [bind_run]
        cases h' : ByteReader.untilEnd r rounds b next with
        | error e =>
          rw [h'] at hrest
          exact hrest
        | ok q =>
          rw [h'] at hrest
          exact hrest
    · rw [untilEnd_done hmore]
      dsimp only
      omega

/-- On this string, a reader fails only in an ordinary way. -/
def EndsOn (b : List UInt8) (r : Reader α) : Prop :=
  ∀ pos, pos ≤ b.length → ∀ e, r b pos = .error e → e.Ordinary

/-- An ordinary failure is one. -/
theorem endsOn_fail {b : List UInt8} {e : Fault} (he : e.Ordinary) :
    EndsOn b (fail e : Reader α) := by
  intro pos _ e' h
  cases h
  exact he

/-- A reader that stays inside, and what fails only in an ordinary way behind it. -/
theorem Inside.endsOn {m : ℕ} {r : Reader α} {f : α → Reader β} {b : List UInt8}
    (hr : Inside m r) (hf : ∀ a, EndsOn b (f a)) : EndsOn b (r >>= f) := by
  intro pos hpos e h
  have hread := hr b pos hpos
  rw [bind_run] at h
  cases h' : r b pos with
  | error e' =>
    rw [h'] at h hread
    cases h
    exact hread
  | ok p =>
    rw [h'] at h hread
    exact hf p.1 p.2 hread.2 e h

/-- Reading to the end, with a round for each byte of the string. -/
theorem endsOn_untilEnd {r : Reader α} (hr : Inside 1 r) (b : List UInt8) :
    EndsOn b (untilEnd r b.length) := by
  intro pos hpos e h
  have hread := Inside.untilEnd hr hpos (Nat.le_add_left b.length pos)
  rw [h] at hread
  exact hread

end Bounds

section Agreement

/-- Two readers read the same bytes, and the second makes of them what `f` makes of what
the first does. They fail alike. -/
def Agree (f : α → β) (r : Reader α) (r' : Reader β) : Prop :=
  ∀ b pos, r' b pos = (r b pos).map fun p => (f p.1, p.2)

/-- A reader agrees with itself. -/
theorem Agree.refl (r : Reader α) : Agree id r r := by
  intro b pos
  cases r b pos with
  | error e => rfl
  | ok p => rfl

/-- Values that agree are read without reading anything. -/
theorem Agree.pure {f : α → β} {a : α} {a' : β} (h : a' = f a) :
    Agree f (Pure.pure a) (Pure.pure a') := by
  intro b pos
  rw [h]
  rfl

/-- Two sequences agree when their parts do. -/
theorem Agree.bind {f : α → β} {g : γ → δ} {r : Reader α} {r' : Reader β} {k : α → Reader γ}
    {k' : β → Reader δ} (hr : Agree f r r') (hk : ∀ a, Agree g (k a) (k' (f a))) :
    Agree g (r >>= k) (r' >>= k') := by
  intro b pos
  rw [bind_run, bind_run, hr b pos]
  cases r b pos with
  | error e => rfl
  | ok p => exact hk p.1 b p.2

/-- Repetitions agree when what is repeated does. -/
theorem Agree.times {f : α → β} {r : Reader α} {r' : Reader β} (hr : Agree f r r') (n : ℕ) :
    Agree (List.map f) (times r n) (times r' n) := by
  induction n with
  | zero => exact Agree.pure rfl
  | succ n ih =>
    rw [ByteReader.times, ByteReader.times]
    exact hr.bind fun _ => ih.bind fun _ => Agree.pure rfl

/-- Reading to the end agrees when what is read does. -/
theorem Agree.untilEnd {f : α → β} {r : Reader α} {r' : Reader β} (hr : Agree f r r')
    (rounds : ℕ) : Agree (List.map f) (untilEnd r rounds) (untilEnd r' rounds) := by
  induction rounds with
  | zero =>
    intro b pos
    by_cases hmore : pos < b.length
    · rw [ByteReader.untilEnd, ByteReader.untilEnd]
      simp only [hmore, if_true]
      rfl
    · rw [untilEnd_done hmore, untilEnd_done hmore]
      rfl
  | succ rounds ih =>
    intro b pos
    by_cases hmore : pos < b.length
    · rw [untilEnd_more hmore, untilEnd_more hmore]
      have hround : Agree (List.map f)
          (r >>= fun a => ByteReader.untilEnd r rounds >>= fun rest => Pure.pure (a :: rest))
          (r' >>= fun a => ByteReader.untilEnd r' rounds >>= fun rest => Pure.pure (a :: rest)) :=
        hr.bind fun _ => ih.bind fun _ => Agree.pure rfl
      exact hround b pos
    · rw [untilEnd_done hmore, untilEnd_done hmore]
      rfl

end Agreement

section Encodings

/-- A reader reads a value back from the bytes it is written as, wherever they stand. -/
def Reads (r : Reader α) (bytes : List UInt8) (a : α) : Prop :=
  ∀ before after, r (before ++ bytes ++ after) before.length =
    .ok (a, before.length + bytes.length)

/-- Nothing is written, and nothing read. -/
theorem Reads.pure (a : α) : Reads (Pure.pure a : Reader α) [] a := by
  intro before after
  rfl

/-- Two values written one behind the other are read one after the other. -/
theorem Reads.bind {r : Reader α} {f : α → Reader β} {x y : List UInt8} {a : α} {b : β}
    (hr : Reads r x a) (hf : Reads (f a) y b) : Reads (r >>= f) (x ++ y) b := by
  intro before after
  have hfirst := hr before (y ++ after)
  have hsecond := hf (before ++ x) after
  have htext : before ++ (x ++ y) ++ after = before ++ x ++ (y ++ after) := by simp
  rw [bind_run, htext, hfirst]
  dsimp only
  rw [← List.append_assoc, ← List.length_append, hsecond]
  simp [Nat.add_assoc]

/-- A value is read on to what it is made into. -/
theorem Reads.map {r : Reader α} {f : α → Reader β} {x : List UInt8} {a : α} {b : β}
    (hr : Reads r x a) (hf : Reads (f a) [] b) : Reads (r >>= f) x b := by
  have h := hr.bind hf
  rwa [List.append_nil] at h

/-- A reader that agrees with another reads back what is made of its value. -/
theorem Reads.agree {f : α → β} {r : Reader α} {r' : Reader β} {x : List UInt8} {a : α}
    (hr : Reads r x a) (h : Agree f r r') : Reads r' x (f a) := by
  intro before after
  rw [h, hr before after]
  rfl

/-- Bytes are read back. -/
theorem reads_take (bytes : List UInt8) : Reads (take bytes.length) bytes bytes := by
  intro before after
  rw [take_run (by simp)]
  simp

/-- Bytes that are passed over are passed over. -/
theorem reads_skip (bytes : List UInt8) : Reads (skip bytes.length) bytes () :=
  (reads_take bytes).map (Reads.pure ())

/-- Sixteen bits, written the most significant byte first. -/
def putU16 (n : UInt16) : List UInt8 := [UInt8.ofNat (n.toNat / 256), UInt8.ofNat (n.toNat % 256)]

/-- Thirty-two bits, written the most significant byte first. -/
def putU32 (n : UInt32) : List UInt8 :=
  [UInt8.ofNat (n.toNat / 0x1000000), UInt8.ofNat (n.toNat / 0x10000 % 256),
    UInt8.ofNat (n.toNat / 256 % 256), UInt8.ofNat (n.toNat % 256)]

/-- A byte has the value it was made of, below its bound. -/
theorem toNat_ofNat_byte {n : ℕ} (h : n < 256) : (UInt8.ofNat n).toNat = n := by
  rw [UInt8.toNat_ofNat']
  exact Nat.mod_eq_of_lt h

/-- Sixteen bits are read back. -/
theorem reads_u16 (n : UInt16) : Reads u16 (putU16 n) n := by
  have hlt : n.toNat < 0x10000 := n.toNat_lt
  have hvalue : UInt16.ofNat (256 * (UInt8.ofNat (n.toNat / 256)).toNat +
      (UInt8.ofNat (n.toNat % 256)).toNat) = n := by
    rw [toNat_ofNat_byte (by omega), toNat_ofNat_byte (by omega), Nat.div_add_mod,
      UInt16.ofNat_toNat]
  have htake : Reads (take 2) (putU16 n) (putU16 n) := reads_take (putU16 n)
  refine htake.map ?_
  unfold putU16
  dsimp only
  rw [hvalue]
  exact Reads.pure n

/-- Thirty-two bits are read back. -/
theorem reads_u32 (n : UInt32) : Reads u32 (putU32 n) n := by
  have hlt : n.toNat < 0x100000000 := n.toNat_lt
  have hvalue : UInt32.ofNat (256 * (256 * (256 * (UInt8.ofNat (n.toNat / 0x1000000)).toNat +
      (UInt8.ofNat (n.toNat / 0x10000 % 256)).toNat) + (UInt8.ofNat (n.toNat / 256 % 256)).toNat) +
      (UInt8.ofNat (n.toNat % 256)).toNat) = n := by
    rw [toNat_ofNat_byte (by omega), toNat_ofNat_byte (by omega), toNat_ofNat_byte (by omega),
      toNat_ofNat_byte (by omega)]
    have hsum : 256 * (256 * (256 * (n.toNat / 0x1000000) + n.toNat / 0x10000 % 256) +
        n.toNat / 256 % 256) + n.toNat % 256 = n.toNat := by omega
    rw [hsum, UInt32.ofNat_toNat]
  have htake : Reads (take 4) (putU32 n) (putU32 n) := reads_take (putU32 n)
  refine htake.map ?_
  unfold putU32
  dsimp only
  rw [hvalue]
  exact Reads.pure n

/-- Values written one behind the other are read so many times. -/
theorem Reads.times {r : Reader α} {write : β → List UInt8} {value : β → α} {l : List β}
    (h : ∀ x ∈ l, Reads r (write x) (value x)) :
    Reads (times r l.length) (l.flatMap write) (l.map value) := by
  induction l with
  | nil => exact Reads.pure []
  | cons x l ih =>
    obtain ⟨hx, hl⟩ := List.forall_mem_cons.mp h
    rw [List.length_cons, ByteReader.times, List.flatMap_cons, List.map_cons]
    exact hx.bind ((ih hl).map (Reads.pure _))

/-- A reader reads a value back from bytes that end the string, and is done. -/
def ReadsLast (r : Reader α) (bytes : List UInt8) (a : α) : Prop :=
  ∀ before, r (before ++ bytes) before.length = .ok (a, (before ++ bytes).length)

/-- A value written before what ends the string is read before it. -/
theorem Reads.bindLast {r : Reader α} {f : α → Reader β} {x y : List UInt8} {a : α} {b : β}
    (hr : Reads r x a) (hf : ReadsLast (f a) y b) : ReadsLast (r >>= f) (x ++ y) b := by
  intro before
  have hfirst := hr before y
  have hsecond := hf (before ++ x)
  rw [bind_run, ← List.append_assoc, hfirst]
  dsimp only
  rw [← List.length_append, hsecond]

/-- Values written to the end are read to the end, when each takes a byte at least. -/
theorem readsLast_untilEnd {r : Reader α} {write : β → List UInt8} {value : β → α} {l : List β}
    (h : ∀ x ∈ l, Reads r (write x) (value x)) (hwrite : ∀ x ∈ l, write x ≠ []) {rounds : ℕ}
    (hrounds : (l.flatMap write).length ≤ rounds) :
    ReadsLast (untilEnd r rounds) (l.flatMap write) (l.map value) := by
  induction l generalizing rounds with
  | nil =>
    intro before
    rw [untilEnd_done (by simp)]
    simp
  | cons x l ih =>
    obtain ⟨hx, hl⟩ := List.forall_mem_cons.mp h
    obtain ⟨hne, hnel⟩ := List.forall_mem_cons.mp hwrite
    have hpos := List.length_pos_of_ne_nil hne
    rw [List.flatMap_cons, List.length_append] at hrounds
    cases rounds with
    | zero => omega
    | succ rounds =>
      intro before
      have hrest : ReadsLast (untilEnd r rounds) (l.flatMap write) (l.map value) :=
        ih hl hnel (by omega)
      have hrest' := hrest (before ++ write x)
      have hread := hx before (l.flatMap write)
      rw [List.flatMap_cons, ← List.append_assoc, untilEnd_more (by simp; omega), bind_run, hread]
      dsimp only
      rw [bind_run, ← List.length_append, hrest']
      rfl

end Encodings

end Kerbridge.ByteReader
