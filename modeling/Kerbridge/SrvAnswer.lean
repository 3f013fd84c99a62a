import Kerbridge.ByteReader
import Kerbridge.Fallible
import Kerbridge.UnicodeText

/-!
# The answer to a service query

A name on the wire is a run of labels that ends in the root label or in a pointer
to an earlier name. The client measures a name to step over it and reads one to
learn a host; both walks stop at whatever is malformed.
-/

namespace Kerbridge.SrvAnswer

open UnicodeText ByteReader Fallible

/-- One service record. -/
structure Srv where
  target : String
  priority : UInt16
  weight : UInt16
  port : UInt16
  deriving DecidableEq

/-- The record type of a service record. -/
def typeSrv : UInt16 := 33

/-- A byte of a message, which must be there. -/
def byteAt (msg : List UInt8) (at' : ℕ) : Except Fault UInt8 :=
  match msg[at']? with
  | some b => .ok b
  | none => .error .outOfRange

/-- The labels of a name on the wire, each behind its length. -/
def encodeLabels : List String → Option (List UInt8)
  | [] => some []
  | label :: rest =>
    if label.isEmpty || decide (63 < label.utf8ByteSize) then none
    else (encodeLabels rest).map fun out =>
      UInt8.ofNat label.utf8ByteSize :: (bytesOf label ++ out)

/-- A name in wire format, if a query can carry it. -/
def encodeName (name : String) : Option (List UInt8) :=
  (encodeLabels (split '.' (trimEndMatches (· == '.') name))).bind fun out =>
    if (out ++ [0]).length ≤ 255 then some (out ++ [0]) else none

/-- Sixteen bits of a message, zero where they are not there. -/
def be16 (msg : List UInt8) (at' : ℕ) : UInt16 :=
  match msg[at']?, msg[at' + 1]? with
  | some hi, some lo => UInt16.ofNat (256 * hi.toNat + lo.toNat)
  | _, _ => 0

/-- The place behind the name that starts at a place. -/
def skipName (msg : List UInt8) (at' : ℕ) : Option ℕ :=
  match _h : msg[at']? with
  | none => none
  | some b =>
    let len := b.toNat
    if len = 0 then some (at' + 1)
    else if len &&& 0xc0 = 0xc0 then if at' + 1 < msg.length then some (at' + 2) else none
    else if len &&& 0xc0 ≠ 0 then none
    else skipName msg (at' + (len + 1))
termination_by msg.length - at'
decreasing_by
  have hlt : at' < msg.length := (List.getElem?_eq_some_iff.mp _h).1
  omega

/-- The loop of `expand`: the labels so far, and the place a pointer must lie before. -/
def expandLoop (msg : List UInt8) (labels : List String) (furthest at' : ℕ) : Option String :=
  match _h : msg[at']? with
  | none => none
  | some b =>
    let len := b.toNat
    if len = 0 then some (".".intercalate labels)
    else if len &&& 0xc0 = 0xc0 then
      match msg[at' + 1]? with
      | none => none
      | some lo =>
        let target := ((len &&& 0x3f) <<< 8) ||| lo.toNat
        if furthest ≤ target then none else expandLoop msg labels target target
    else if len &&& 0xc0 ≠ 0 then none
    else
      match slice msg (at' + 1) (at' + 1 + len) with
      | none => none
      | some bytes =>
        match fromUtf8 bytes with
        | none => none
        | some label => expandLoop msg (labels ++ [label]) furthest (at' + 1 + len)
termination_by (furthest, msg.length - at')
decreasing_by
  · apply Prod.Lex.left
    exact Nat.lt_of_not_le (by assumption)
  · apply Prod.Lex.right
    have hlt : at' < msg.length := (List.getElem?_eq_some_iff.mp _h).1
    omega

/-- The name at a place, with pointers followed. -/
def expand (msg : List UInt8) (at' : ℕ) : Option String := expandLoop msg [] at' at'

/-- The place behind so many questions. -/
def skipQuestions (msg : List UInt8) : ℕ → ℕ → Option ℕ
  | 0, at' => some at'
  | n + 1, at' =>
    match skipName msg at' with
    | none => none
    | some next => skipQuestions msg n (next + 4)

/-- The records of so many answers, behind those found. -/
def answerLoop (msg : List UInt8) (out : List Srv) : ℕ → ℕ → List Srv
  | 0, _ => out
  | n + 1, at' =>
    match skipName msg at' with
    | none => out
    | some next =>
      if msg.length < next + 10 then out
      else
        let rtype := be16 msg next
        let rdlen := (be16 msg (next + 8)).toNat
        let rdata := next + 10
        if msg.length < rdata + rdlen then out
        else
          let found :=
            if rtype = typeSrv ∧ 7 ≤ rdlen then
              match expand msg (rdata + 6) with
              | some target =>
                [⟨target, be16 msg rdata, be16 msg (rdata + 2), be16 msg (rdata + 4)⟩]
              | none => []
            else []
          answerLoop msg (out ++ found) n (rdata + rdlen)

/-- The service records of a response. -/
def parse (msg : List UInt8) : Except Fault (List Srv) :=
  if msg.length < 12 then .ok []
  else do
    let flags ← byteAt msg 3
    if flags.toNat &&& 0x0f ≠ 0 then .ok []
    else
      match skipQuestions msg (be16 msg 4).toNat 12 with
      | none => .ok []
      | some at' => .ok (answerLoop msg [] (be16 msg 6).toNat at')

/-- A name of a message: the labels of the run that starts at a place and of the names
its pointer leads to, and the place behind the run. A pointer leads to a place before
the start of the run it ends. -/
inductive NameAt (msg : List UInt8) : ℕ → ℕ → List (List UInt8) → ℕ → Prop where
  /-- The root label. -/
  | root {start at' : ℕ} (h : msg[at']? = some 0) : NameAt msg start at' [] (at' + 1)
  /-- A label of up to 63 bytes. -/
  | label {start at' next : ℕ} {len : UInt8} {bytes : List UInt8} {rest : List (List UInt8)}
      (h : msg[at']? = some len) (hpos : 0 < len.toNat) (hlen : len.toNat < 64)
      (hbytes : slice msg (at' + 1) (at' + 1 + len.toNat) = some bytes)
      (hrest : NameAt msg start (at' + 1 + len.toNat) rest next) :
      NameAt msg start at' (bytes :: rest) next
  /-- A pointer. -/
  | pointer {start at' target next : ℕ} {hi lo : UInt8} {rest : List (List UInt8)}
      (hhi : msg[at']? = some hi) (hlo : msg[at' + 1]? = some lo)
      (htarget : 256 * 192 + target = 256 * hi.toNat + lo.toNat) (hbefore : target < start)
      (hrest : NameAt msg target target rest next) : NameAt msg start at' rest (at' + 2)

/-- Sixteen bits stand at a place of a message. -/
def WordAt (msg : List UInt8) (at' n : ℕ) : Prop :=
  ∃ hi lo : UInt8, msg[at']? = some hi ∧ msg[at' + 1]? = some lo ∧
    n = 256 * hi.toNat + lo.toNat

/-- So many questions stand between two places. -/
inductive QuestionsAt (msg : List UInt8) : ℕ → ℕ → ℕ → Prop where
  | none {at' : ℕ} : QuestionsAt msg 0 at' at'
  /-- A name, its type and its class. -/
  | more {n at' next stop : ℕ} {name : List (List UInt8)} (hname : NameAt msg at' at' name next)
      (hrest : QuestionsAt msg n (next + 4) stop) : QuestionsAt msg (n + 1) at' stop

/-- The data of a service record: three numbers and the name of a host. -/
structure SrvAt (msg : List UInt8) (start stop : ℕ) (srv : Srv) : Prop where
  priority : WordAt msg start srv.priority.toNat
  weight : WordAt msg (start + 2) srv.weight.toNat
  port : WordAt msg (start + 4) srv.port.toNat
  target : ∃ labels : List String, NameAt msg (start + 6) (start + 6) (labels.map bytesOf) stop ∧
    srv.target = ".".intercalate labels

/-- So many answers stand at a place, and these are the service records among them. -/
inductive AnswersAt (msg : List UInt8) : ℕ → ℕ → List Srv → Prop where
  | none {at' : ℕ} : AnswersAt msg 0 at' []
  /-- A service record. -/
  | srv {n at' next rdlen : ℕ} {name : List (List UInt8)} {s : Srv} {rest : List Srv}
      (hname : NameAt msg at' at' name next) (htype : WordAt msg next typeSrv.toNat)
      (hlen : WordAt msg (next + 8) rdlen) (hinside : next + 10 + rdlen ≤ msg.length)
      (hdata : SrvAt msg (next + 10) (next + 10 + rdlen) s)
      (hrest : AnswersAt msg n (next + 10 + rdlen) rest) : AnswersAt msg (n + 1) at' (s :: rest)
  /-- A record of another type. -/
  | other {n at' next rtype rdlen : ℕ} {name : List (List UInt8)} {rest : List Srv}
      (hname : NameAt msg at' at' name next) (htype : WordAt msg next rtype)
      (hother : rtype ≠ typeSrv.toNat) (hlen : WordAt msg (next + 8) rdlen)
      (hinside : next + 10 + rdlen ≤ msg.length)
      (hrest : AnswersAt msg n (next + 10 + rdlen) rest) : AnswersAt msg (n + 1) at' rest

/-- A response whose answers have these service records among them. -/
structure Response (msg : List UInt8) (srvs : List Srv) : Prop where
  header : 12 ≤ msg.length
  sections : ∃ questions answers start, WordAt msg 4 questions ∧ WordAt msg 6 answers ∧
    QuestionsAt msg questions 12 start ∧ AnswersAt msg answers start srvs

/-- The response code of a message. -/
def rcode (msg : List UInt8) : ℕ := (msg[3]?.elim 0 UInt8.toNat) % 16

/-- What the two highest bits of a length byte say. -/
theorem high_bits : ∀ n < 256, (n &&& 0xc0 = 0xc0 ↔ 192 ≤ n) ∧ (n &&& 0xc0 ≠ 0 ↔ 64 ≤ n) ∧
    n &&& 0x3f = n % 64 := by
  decide +kernel

/-- The place a pointer leads to. -/
theorem pointer_target {hi lo : UInt8} (h : 192 ≤ hi.toNat) :
    256 * 192 + (((hi.toNat &&& 0x3f) <<< 8) ||| lo.toNat) = 256 * hi.toNat + lo.toNat := by
  have hhi := hi.toNat_lt
  rw [(high_bits hi.toNat hhi).2.2, ← Nat.shiftLeft_add_eq_or_of_lt lo.toNat_lt,
    Nat.shiftLeft_eq]
  omega

/-- Sixteen bits are read where they stand. -/
theorem be16_of_wordAt {msg : List UInt8} {at' n : ℕ} (h : WordAt msg at' n) :
    (be16 msg at').toNat = n := by
  obtain ⟨hi, lo, hhi, hlo, rfl⟩ := h
  have h₁ := hi.toNat_lt
  have h₂ := lo.toNat_lt
  rw [be16, hhi, hlo]
  simp only [UInt16.toNat_ofNat']
  omega

/-- A name is measured to the place behind it. -/
theorem skipName_of_nameAt {msg : List UInt8} {start at' next : ℕ} {labels : List (List UInt8)}
    (h : NameAt msg start at' labels next) : skipName msg at' = some next := by
  induction h with
  | root h =>
    rw [skipName, h]
    rfl
  | @label start at' next len bytes rest h hpos hlen hbytes hrest ih =>
    have hbits := high_bits len.toNat len.toNat_lt
    have hlow : ¬ (len.toNat &&& 0xc0 ≠ 0) := by
      rw [hbits.2.1]
      omega
    have hnot : ¬ (len.toNat &&& 0xc0 = 0xc0) := by
      rw [hbits.1]
      omega
    rw [skipName, h]
    dsimp only
    rw [if_neg (by omega), if_neg hnot, if_neg hlow, ← Nat.add_assoc, Nat.add_right_comm]
    exact ih
  | @pointer start at' target next hi lo rest hhi hlo htarget hbefore hrest ih =>
    have hlow := lo.toNat_lt
    have hbits : hi.toNat &&& 0xc0 = 0xc0 := by
      rw [(high_bits hi.toNat hi.toNat_lt).1]
      omega
    have hlt : at' + 1 < msg.length := (List.getElem?_eq_some_iff.mp hlo).1
    rw [skipName, hhi]
    dsimp only
    rw [if_neg (by omega), if_pos hbits, if_pos hlt]

/-- The labels of a name are read behind those read before. -/
theorem expandLoop_of_nameAt {msg : List UInt8} {start at' next : ℕ} {bytes : List (List UInt8)}
    (h : NameAt msg start at' bytes next) {texts : List String} (htexts : texts.map bytesOf = bytes)
    (labels : List String) :
    expandLoop msg labels start at' = some (".".intercalate (labels ++ texts)) := by
  induction h generalizing texts labels with
  | root h =>
    rw [List.map_eq_nil_iff.mp htexts, List.append_nil, expandLoop, h]
    rfl
  | @label start at' next len bytes rest h hpos hlen hbytes hrest ih =>
    obtain ⟨text, texts', rfl, rfl, hmap⟩ := List.map_eq_cons_iff.mp htexts
    have hbits := high_bits len.toNat len.toNat_lt
    have hlow : ¬ (len.toNat &&& 0xc0 ≠ 0) := by
      rw [hbits.2.1]
      omega
    have hnot : ¬ (len.toNat &&& 0xc0 = 0xc0) := by
      rw [hbits.1]
      omega
    rw [expandLoop, h]
    dsimp only
    rw [if_neg (by omega), if_neg hnot, if_neg hlow, hbytes]
    dsimp only
    rw [fromUtf8_bytesOf]
    dsimp only
    rw [ih hmap, List.append_assoc, List.singleton_append]
  | @pointer start at' target next hi lo rest hhi hlo htarget hbefore hrest ih =>
    have hlow := lo.toNat_lt
    have hhigh : 192 ≤ hi.toNat := by omega
    have hbits : hi.toNat &&& 0xc0 = 0xc0 := (high_bits hi.toNat hi.toNat_lt).1.mpr hhigh
    have hsame : ((hi.toNat &&& 0x3f) <<< 8) ||| lo.toNat = target := by
      have hpointer := @pointer_target _ lo hhigh
      omega
    rw [expandLoop, hhi]
    dsimp only
    rw [if_neg (by omega), if_pos hbits, hlo]
    dsimp only
    rw [hsame, if_neg (by omega)]
    exact ih htexts labels

/-- Questions are passed over to the place behind them. -/
theorem skipQuestions_of_questionsAt {msg : List UInt8} {n at' stop : ℕ}
    (h : QuestionsAt msg n at' stop) : skipQuestions msg n at' = some stop := by
  induction h with
  | none => rfl
  | more hname hrest ih =>
    rw [skipQuestions, skipName_of_nameAt hname]
    exact ih

/-- The data of a service record is read as the record. -/
theorem read_of_srvAt {msg : List UInt8} {start stop : ℕ} {s : Srv} (h : SrvAt msg start stop s) :
    expand msg (start + 6) = some s.target ∧ be16 msg start = s.priority ∧
      be16 msg (start + 2) = s.weight ∧ be16 msg (start + 4) = s.port := by
  obtain ⟨labels, hname, htarget⟩ := h.target
  refine ⟨?_, UInt16.toNat_inj.mp (be16_of_wordAt h.priority),
    UInt16.toNat_inj.mp (be16_of_wordAt h.weight), UInt16.toNat_inj.mp (be16_of_wordAt h.port)⟩
  rw [expand, expandLoop_of_nameAt hname rfl, List.nil_append, htarget]

/-- A name takes at least one byte. -/
theorem lt_of_nameAt {msg : List UInt8} {start at' next : ℕ} {labels : List (List UInt8)}
    (h : NameAt msg start at' labels next) : at' < next := by
  induction h with
  | root h => omega
  | label h hpos hlen hbytes hrest ih => omega
  | pointer hhi hlo htarget hbefore hrest ih => omega

/-- The answers are read as the service records among them. -/
theorem answerLoop_of_answersAt {msg : List UInt8} {n at' : ℕ} {srvs : List Srv}
    (h : AnswersAt msg n at' srvs) (out : List Srv) : answerLoop msg out n at' = out ++ srvs := by
  induction h generalizing out with
  | none => rw [answerLoop, List.append_nil]
  | @srv n at' next rdlen name s rest hname htype hlen hinside hdata hrest ih =>
    obtain ⟨htarget, hpriority, hweight, hport⟩ := read_of_srvAt hdata
    have hsrv : be16 msg next = typeSrv := UInt16.toNat_inj.mp (be16_of_wordAt htype)
    have hseven : 7 ≤ rdlen := by
      obtain ⟨labels, htargetName, _⟩ := hdata.target
      have hlt := lt_of_nameAt htargetName
      omega
    rw [answerLoop, skipName_of_nameAt hname]
    dsimp only
    rw [if_neg (by omega), be16_of_wordAt hlen, if_neg (by omega), if_pos ⟨hsrv, hseven⟩, htarget,
      hpriority, hweight, hport]
    dsimp only
    rw [ih, List.append_assoc, List.singleton_append]
  | @other n at' next rtype rdlen name rest hname htype hother hlen hinside hrest ih =>
    have hnot : ¬ (be16 msg next = typeSrv ∧ 7 ≤ rdlen) := by
      rintro ⟨hsrv, _⟩
      rw [← be16_of_wordAt htype, hsrv] at hother
      exact hother rfl
    rw [answerLoop, skipName_of_nameAt hname]
    dsimp only
    rw [if_neg (by omega), be16_of_wordAt hlen, if_neg (by omega), if_neg hnot, List.append_nil, ih]

/-- The low four bits of a byte. -/
theorem low_bits (n : ℕ) : n &&& 0x0f = n % 16 := Nat.and_two_pow_sub_one_eq_mod n 4

/-- What the reader returns of a message that has a header. -/
theorem parse_eq {msg : List UInt8} (h : 12 ≤ msg.length) :
    parse msg = .ok (if rcode msg = 0 then
      match skipQuestions msg (be16 msg 4).toNat 12 with
      | none => []
      | some at' => answerLoop msg [] (be16 msg 6).toNat at'
    else []) := by
  have hthree : msg[3]? = some msg[3] := List.getElem?_eq_getElem (by omega)
  have hcode : rcode msg = msg[3].toNat &&& 0x0f := by
    rw [rcode, hthree, low_bits]
    rfl
  rw [parse, if_neg (by omega), byteAt, hthree, hcode]
  dsimp only
  rw [ok_bind]
  by_cases hzero : msg[3].toNat &&& 0x0f = 0
  · rw [if_neg (by simpa using hzero), if_pos hzero]
    cases skipQuestions msg (be16 msg 4).toNat 12 with
    | none => rfl
    | some at' => rfl
  · rw [if_pos hzero, if_neg hzero]

/-- No message makes the reader look outside it. -/
theorem parse_inside (msg : List UInt8) : ∃ srvs, parse msg = .ok srvs := by
  by_cases hshort : msg.length < 12
  · exact ⟨[], by rw [parse, if_pos hshort]⟩
  · exact ⟨_, parse_eq (by omega)⟩

/-- A response that reports no error is read as the service records it answers with,
and any other response as none. -/
theorem parse_of_response {msg : List UInt8} {srvs : List Srv} (h : Response msg srvs) :
    parse msg = .ok (if rcode msg = 0 then srvs else []) := by
  obtain ⟨questions, answers, start, hquestions, hanswers, hq, ha⟩ := h.sections
  rw [parse_eq h.header, be16_of_wordAt hquestions, be16_of_wordAt hanswers,
    skipQuestions_of_questionsAt hq]
  dsimp only
  rw [answerLoop_of_answersAt ha, List.nil_append]

/-- A slice behind a prefix. -/
theorem slice_append (pre bytes post : List UInt8) :
    slice (pre ++ (bytes ++ post)) pre.length (pre.length + bytes.length) = some bytes := by
  rw [slice, if_pos (by simp)]
  simp

/-- Labels on the wire, before the root label, are a name of a message wherever they
stand in it. -/
theorem nameAt_of_encodeLabels {labels : List String} {wire : List UInt8}
    (h : encodeLabels labels = some wire) (start : ℕ) (pre post : List UInt8) :
    NameAt (pre ++ (wire ++ 0 :: post)) start pre.length (labels.map bytesOf)
      (pre.length + wire.length + 1) := by
  induction labels generalizing pre wire with
  | nil =>
    cases h
    exact .root (by simp)
  | cons label rest ih =>
    rw [encodeLabels] at h
    split at h
    · cases h
    · rename_i hlabel
      obtain ⟨out, hout, rfl⟩ := Option.map_eq_some_iff.mp h
      rw [Bool.or_eq_true, not_or, decide_eq_true_eq, String.isEmpty_iff] at hlabel
      have hsize : (UInt8.ofNat label.utf8ByteSize).toNat = label.utf8ByteSize := by
        rw [UInt8.toNat_ofNat']
        omega
      have hpos : 0 < label.utf8ByteSize := by
        rw [Nat.pos_iff_ne_zero]
        exact fun hzero => hlabel.1 (String.utf8ByteSize_eq_zero_iff.mp hzero)
      have hlen : (bytesOf label).length = label.utf8ByteSize := bytesOf_length label
      have hpre : (pre ++ [UInt8.ofNat label.utf8ByteSize] ++ bytesOf label).length =
          pre.length + 1 + label.utf8ByteSize := by
        simp [hlen]
        omega
      have hrest := ih hout (pre ++ [UInt8.ofNat label.utf8ByteSize] ++ bytesOf label)
      refine @NameAt.label _ _ _ _ (UInt8.ofNat label.utf8ByteSize) _ _ (by simp) (by omega)
        (by omega) ?_ ?_
      · have hslice := slice_append (pre ++ [UInt8.ofNat label.utf8ByteSize]) (bytesOf label)
          (out ++ 0 :: post)
        simpa [hlen, hsize, Nat.add_assoc] using hslice
      · rw [hpre] at hrest
        rw [hsize]
        simpa [hlen, Nat.add_assoc, Nat.add_comm, Nat.add_left_comm] using hrest

/-- A text is the parts it is split into, with the separator between them. -/
theorem intercalate_split (s : String) : ".".intercalate (split '.' s) = s := by
  apply String.toList_injective
  rw [String.toList_intercalate, split, List.map_map]
  have hparts : (s.toList.splitOn '.').map (String.toList ∘ String.ofList) =
      s.toList.splitOn '.' := by
    conv_rhs => rw [← List.map_id (s.toList.splitOn '.')]
    apply List.map_congr_left
    intro part _
    exact String.toList_ofList
  rw [hparts]
  exact List.intercalate_splitOn '.'

/-- A name that a query carries is read back wherever it stands, without the dots it
ended in. -/
theorem expand_encodeName {name : String} {wire : List UInt8} (h : encodeName name = some wire)
    (pre post : List UInt8) :
    expand (pre ++ (wire ++ post)) pre.length = some (trimEndMatches (· == '.') name) := by
  obtain ⟨out, hout, hwire⟩ := Option.bind_eq_some_iff.mp h
  split at hwire
  · cases hwire
    have hname := nameAt_of_encodeLabels hout pre.length pre post
    rw [List.append_assoc, List.singleton_append, expand, expandLoop_of_nameAt hname rfl,
      List.nil_append, intercalate_split]
  · cases hwire

/-- The reader of service answers looks at no byte outside a message. A response that
reports no error gives exactly the service records among its answers, in their order
and with the names of their hosts, and a response that reports one gives none. What a
query carries as a name is read back as the name without its trailing dots. -/
theorem parse_service_answers :
    (∀ msg, ∃ srvs, parse msg = .ok srvs) ∧
    (∀ msg srvs, Response msg srvs → parse msg = .ok (if rcode msg = 0 then srvs else [])) ∧
    ∀ name wire, encodeName name = some wire → ∀ pre post,
      expand (pre ++ (wire ++ post)) pre.length = some (trimEndMatches (· == '.') name) :=
  ⟨parse_inside, fun _ _ h => parse_of_response h, fun _ _ h pre post => expand_encodeName h pre post⟩

section Answer

/-- An answer with one service record, whose host ends in a pointer to the question. -/
def answer (code : UInt8) : List UInt8 :=
  [0x12, 0x34, 0x81, 0x80 + code, 0, 1, 0, 1, 0, 0, 0, 0] ++
    [1, 97, 4, 115, 105, 116, 101, 0, 0, 33, 0, 1] ++
    [0xc0, 12, 0, 33, 0, 1, 0, 0, 1, 44, 0, 11, 0, 0, 0, 100, 1, 187, 2, 107, 98, 0xc0, 14]

/-- The record of that answer. -/
def answered : Srv := ⟨"kb.site", 0, 100, 443⟩

/-- The answer is a response with that record, whatever code it reports. -/
theorem answer_response (code : UInt8) : Response (answer code) [answered] := by
  have hsite : NameAt (answer code) 14 14 [bytesOf "site"] 20 :=
    @NameAt.label _ _ _ _ 4 _ _ rfl (by decide) (by decide) (by rfl) (.root rfl)
  have hquestion : NameAt (answer code) 12 12 [[97], bytesOf "site"] 20 :=
    @NameAt.label _ _ _ _ 1 _ _ rfl (by decide) (by decide) (by rfl)
      (@NameAt.label _ _ _ _ 4 _ _ rfl (by decide) (by decide) (by rfl) (.root rfl))
  have howner : NameAt (answer code) 24 24 [[97], bytesOf "site"] 26 :=
    @NameAt.pointer _ _ _ 12 _ _ _ _ rfl rfl (by decide) (by decide) hquestion
  have hhost : NameAt (answer code) 42 42 (["kb", "site"].map bytesOf) 47 :=
    @NameAt.label _ _ _ _ 2 _ _ rfl (by decide) (by decide) (by rfl)
      (@NameAt.pointer _ _ _ 14 _ _ _ _ rfl rfl (by decide) (by decide) hsite)
  refine ⟨by simp [answer], 1, 1, 24, ⟨0, 1, rfl, rfl, rfl⟩, ⟨0, 1, rfl, rfl, rfl⟩,
    .more hquestion .none, ?_⟩
  exact @AnswersAt.srv _ _ _ 26 11 _ _ _ howner ⟨0, 33, rfl, rfl, rfl⟩ ⟨0, 11, rfl, rfl, rfl⟩
    (by simp [answer]) ⟨⟨0, 0, rfl, rfl, rfl⟩, ⟨0, 100, rfl, rfl, rfl⟩, ⟨1, 187, rfl, rfl, rfl⟩,
      ["kb", "site"], hhost, rfl⟩ .none

/-- The record is read from the answer that reports no error, and a name is read back
from its wire format. -/
theorem parse_service_answers_sample :
    parse (answer 0) = .ok [answered] ∧
      expand ([] ++ ([1, 97, 4, 115, 105, 116, 101, 0] ++ [])) ([] : List UInt8).length =
        some (trimEndMatches (· == '.') "a.site.") :=
  ⟨parse_service_answers.2.1 _ _ (answer_response 0),
    parse_service_answers.2.2 "a.site." [1, 97, 4, 115, 105, 116, 101, 0] (by decide) [] []⟩

/-- The same answer under an error code has its record still, and is read as none. -/
theorem error_code_hides_answers :
    Response (answer 3) [answered] ∧ parse (answer 3) = .ok [] ∧
      ¬ ∀ msg srvs, Response msg srvs → parse msg = .ok srvs := by
  have hnone : parse (answer 3) = .ok [] := parse_of_response (answer_response 3)
  refine ⟨answer_response 3, hnone, ?_⟩
  intro h
  have hsome := h _ _ (answer_response 3)
  rw [hnone] at hsome
  cases hsome

end Answer

end Kerbridge.SrvAnswer
