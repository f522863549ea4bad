import Processor64.Memory.Console

/-!
# Conversations with a console

The guest reads, peeks and writes the registers of a console while the host queues input and
collects output, in any order. One exchange moves bytes from the input that waits to the guest and
from the guest to the output, and loses, doubles or reorders none (`Exchange.input_conserved`,
`Exchange.output_conserved`); hence neither does a conversation of any length, and at its end the
status register still foretells the next read (`converse_faithful`).
-/

namespace Processor64.Console

/-- What a guest or a host may ask of a console. -/
inductive Request where
  | pushInput (bytes : List UInt8)
  | read (offset : Word) (w : Width)
  | peek (offset : Word) (w : Width)
  | write (offset : Word) (w : Width) (v : Word)
  | output
  | takeOutput

namespace Request

/-- The bytes that a request queues as input. -/
def pushed : Request → List UInt8
  | pushInput bytes => bytes
  | _ => []

/-- The byte that a request writes to the data register, the low one whatever its width. -/
def written : Request → List UInt8
  | write offset _ v => if offset = dataOffset then [UInt8.ofNat v.toNat] else []
  | _ => []

/-- A request that neither queues input nor reads the data register. -/
def LeavesInput : Request → Prop
  | pushInput _ => False
  | read offset _ => offset ≠ dataOffset
  | _ => True

/-- A request that only looks: a peek, a look at the output, or an access to another register than
that of the data. -/
def Looks : Request → Prop
  | read offset _ => offset ≠ dataOffset
  | write offset _ _ => offset ≠ dataOffset
  | peek _ _ | output => True
  | pushInput _ | takeOutput => False

end Request

inductive Answer where
  | done
  | value (v : Word)
  | bytes (bs : List UInt8)
  deriving DecidableEq

/-- The answer to a request, and the console after it. -/
def serve (c : Console) : Request → Answer × Console
  | .pushInput bytes => (.done, c.pushInput bytes)
  | .read offset w => (.value (c.read offset w).1, (c.read offset w).2)
  | .peek offset w => (.value (c.peek offset w), c)
  | .write offset w v => (.done, c.write offset w v)
  | .output => (.bytes c.output.toList, c)
  | .takeOutput => (.bytes c.takeOutput.1, c.takeOutput.2)

/-- A request and the console that it finds. -/
structure Exchange where
  before : Console
  request : Request

namespace Exchange

def answer (e : Exchange) : Answer := (e.before.serve e.request).1

def after (e : Exchange) : Console := (e.before.serve e.request).2

/-- The byte that a read of the data register returns when it finds input. -/
def received (e : Exchange) : List UInt8 :=
  match e.request, e.answer with
  | .read offset _, .value v =>
    if offset = dataOffset ∧ e.before.input ≠ [] then [UInt8.ofNat v.toNat] else []
  | _, _ => []

/-- The bytes that the host takes from the output. -/
def taken (e : Exchange) : List UInt8 :=
  match e.request, e.answer with
  | .takeOutput, .bytes bs => bs
  | _, _ => []

end Exchange

/-- The exchanges of a conversation, in order. -/
def exchanges : Console → List Request → List Exchange
  | _, [] => []
  | c, r :: rs => ⟨c, r⟩ :: exchanges (c.serve r).2 rs

/-- The console after a conversation. -/
def converse (c : Console) (rs : List Request) : Console := rs.foldl (fun c r => (c.serve r).2) c

/-! ## Reads of the data register -/

variable {c : Console} {b : UInt8} {bs : List UInt8}

theorem truncate_byte (w : Width) (b : UInt8) :
    w.truncate (BitVec.ofNat 64 b.toNat) = BitVec.ofNat 64 b.toNat := by
  have hb := b.toNat_lt
  apply BitVec.eq_of_toNat_eq
  cases w <;> simp only [Width.truncate, Width.bits, Width.bytes, BitVec.toNat_setWidth,
    BitVec.toNat_ofNat] <;> omega

/-- A read of any width takes the byte that waits the longest, and answers with it. -/
theorem read_of_cons (h : c.input = b :: bs) (w : Width) :
    c.read dataOffset w = (BitVec.ofNat 64 b.toNat, { c with input := bs }) := by
  simp only [read, readRegister, h, if_true, truncate_byte]

theorem read_of_nil (h : c.input = []) (w : Width) : c.read dataOffset w = (w.mask, c) := by
  simp only [read, readRegister, h, if_true, Width.mask]

theorem ofNat_byte_ne_mask {w : Width} (hw : w ≠ .byte) (b : UInt8) :
    BitVec.ofNat 64 b.toNat ≠ w.mask := by
  have hb := b.toNat_lt
  intro h
  have hmask := congrArg BitVec.toNat h
  rw [BitVec.toNat_ofNat] at hmask
  cases w
  · exact hw rfl
  · rw [show Width.half.mask.toNat = 0xFFFF by decide] at hmask
    omega
  · rw [show Width.word.mask.toNat = 0xFFFFFFFF by decide] at hmask
    omega
  · rw [show Width.double.mask.toNat = 0xFFFFFFFFFFFFFFFF by decide] at hmask
    omega

/-- The next read of the data register takes a byte. -/
def Takes (c : Console) (w : Width) : Prop :=
  ∃ b bs, c.input = b :: bs ∧
    c.read dataOffset w = (BitVec.ofNat 64 b.toNat, { c with input := bs })

theorem takes_iff (w : Width) : c.Takes w ↔ c.input ≠ [] := by
  constructor
  · rintro ⟨b, bs, h, -⟩
    rw [h]
    exact List.cons_ne_nil b bs
  · intro h
    obtain ⟨b, bs, hinput⟩ := List.exists_cons_of_ne_nil h
    exact ⟨b, bs, hinput, read_of_cons hinput w⟩

theorem getLsbD_status (c : Console) (w : Width) :
    (c.read statusOffset w).1.getLsbD 0 = true ↔ c.input ≠ [] := by
  have hne : statusOffset ≠ dataOffset := by decide
  have hvalue : (c.read statusOffset w).1 = w.truncate (if c.input.isEmpty then 2 else 3) := by
    simp only [read_of_ne hne, value, if_neg hne, if_true]
  have hclear : (w.truncate 2).getLsbD 0 = false := by cases w <;> decide
  have hset : (w.truncate 3).getLsbD 0 = true := by cases w <;> decide
  rw [hvalue]
  rcases c.input with _ | ⟨b, bs⟩
  · exact iff_of_false (ne_true_of_eq_false hclear) (not_not_intro rfl)
  · exact iff_of_true hset (List.cons_ne_nil b bs)

theorem input_write (c : Console) (offset : Word) (w : Width) (v : Word) :
    (c.write offset w v).input = c.input := by
  unfold write
  split <;> rfl

theorem output_read (c : Console) (offset : Word) (w : Width) :
    (c.read offset w).2.output = c.output := by
  rw [read_eq]
  dsimp only
  split <;> rfl

/-! ## One exchange -/

/-- What was received and what waits is what waited and what was queued. -/
theorem Exchange.input_conserved (e : Exchange) :
    e.received ++ e.after.input = e.before.input ++ e.request.pushed := by
  obtain ⟨c, r⟩ := e
  cases r with
  | pushInput bytes => rfl
  | read offset w =>
    by_cases ho : offset = dataOffset
    · subst ho
      rcases hi : c.input with _ | ⟨b, bs⟩
      · simp [received, after, answer, serve, read_of_nil hi, Request.pushed, hi]
      · simp [received, after, answer, serve, read_of_cons hi, Request.pushed, hi]
    · simp [received, after, answer, serve, read_of_ne ho, ho, Request.pushed]
  | write offset w v => simp [received, after, serve, Request.pushed, input_write]
  | peek offset w | output | takeOutput =>
    simp [received, after, serve, takeOutput, Request.pushed]

/-- What was taken and what is left is what there was and what was written. -/
theorem Exchange.output_conserved (e : Exchange) :
    e.taken ++ e.after.output.toList = e.before.output.toList ++ e.request.written := by
  obtain ⟨c, r⟩ := e
  cases r with
  | read offset w => simp [taken, after, serve, Request.written, output_read]
  | write offset w v =>
    by_cases ho : offset = dataOffset <;> simp [taken, after, serve, write, ho, Request.written]
  | takeOutput => simp [taken, after, answer, serve, takeOutput, Request.written]
  | pushInput _ | peek _ _ | output => simp [taken, after, serve, pushInput, Request.written]

theorem serve_of_looks {r : Request} (h : r.Looks) : (c.serve r).2 = c := by
  cases r with
  | pushInput bytes | takeOutput => exact h.elim
  | peek offset w | output => rfl
  | read offset w => rw [serve, read_of_ne (show offset ≠ dataOffset from h)]
  | write offset w v => simp only [serve, write, if_neg (show offset ≠ dataOffset from h)]

theorem input_serve {r : Request} (h : r.LeavesInput) : (c.serve r).2.input = c.input := by
  cases r with
  | pushInput bytes => exact h.elim
  | read offset w => rw [serve_of_looks (r := .read offset w) h]
  | write offset w v => exact c.input_write offset w v
  | peek offset w | output | takeOutput => rfl

/-! ## Conversations -/

theorem input_exchanges : ∀ (rs : List Request) (c : Console),
    (c.exchanges rs).flatMap Exchange.received ++ (c.converse rs).input =
      c.input ++ rs.flatMap Request.pushed
  | [], c => by simp [exchanges, converse]
  | r :: rs, c => by
    have hstep := Exchange.input_conserved ⟨c, r⟩
    have hrest := input_exchanges rs (c.serve r).2
    rw [exchanges, List.flatMap_cons, List.flatMap_cons, List.append_assoc]
    show _ ++ (_ ++ ((c.serve r).2.converse rs).input) = _
    rw [hrest, ← List.append_assoc, ← List.append_assoc]
    exact congrArg (· ++ _) hstep

theorem output_exchanges : ∀ (rs : List Request) (c : Console),
    (c.exchanges rs).flatMap Exchange.taken ++ (c.converse rs).output.toList =
      c.output.toList ++ rs.flatMap Request.written
  | [], c => by simp [exchanges, converse]
  | r :: rs, c => by
    have hstep := Exchange.output_conserved ⟨c, r⟩
    have hrest := output_exchanges rs (c.serve r).2
    rw [exchanges, List.flatMap_cons, List.flatMap_cons, List.append_assoc]
    show _ ++ (_ ++ ((c.serve r).2.converse rs).output.toList) = _
    rw [hrest, ← List.append_assoc, ← List.append_assoc]
    exact congrArg (· ++ _) hstep

theorem input_converse (rs : List Request) {c : Console} (h : ∀ r ∈ rs, r.LeavesInput) :
    (c.converse rs).input = c.input := by
  induction rs generalizing c with
  | nil => rfl
  | cons r rs ih =>
    have hrest := ih (c := (c.serve r).2) fun r' hr' => h r' (List.mem_cons_of_mem r hr')
    exact hrest.trans (input_serve (h r List.mem_cons_self))

/-- The registers of a console tell the truth: the status foretells, until input is queued, whether
the next read of the data register takes a byte, all ones in a wide read of the data register mean
that no input waits, and what only looks changes nothing. -/
structure Truthful (c : Console) : Prop where
  status : ∀ w w' between, (∀ r ∈ between, r.LeavesInput) →
    ((c.read statusOffset w).1.getLsbD 0 = true ↔ (c.converse between).Takes w')
  statusPeek : ∀ w, c.peek statusOffset w = (c.read statusOffset w).1
  empty : ∀ w, w ≠ .byte → ((c.read dataOffset w).1 = w.mask ↔ c.input = [])
  looks : ∀ r : Request, r.Looks → (c.serve r).2 = c

theorem truthful (c : Console) : c.Truthful where
  status w w' between h := by rw [getLsbD_status, takes_iff, input_converse between h]
  statusPeek _ := rfl
  empty w hw := by
    rcases hi : c.input with _ | ⟨b, bs⟩
    · simp [read_of_nil hi]
    · simp [read_of_cons hi, ofNat_byte_ne_mask hw]
  looks _ h := serve_of_looks h

/-- A conversation with a new console has kept all bytes, in order, and the console that it leaves
tells the truth. -/
structure Faithful (base : Word) (rs : List Request) : Prop where
  input : ((create base).exchanges rs).flatMap Exchange.received ++
    ((create base).converse rs).input = rs.flatMap Request.pushed
  output : ((create base).exchanges rs).flatMap Exchange.taken ++
    ((create base).converse rs).output.toList = rs.flatMap Request.written
  registers : ((create base).converse rs).Truthful

theorem converse_faithful (base : Word) (rs : List Request) : Faithful base rs where
  input := input_exchanges rs (create base)
  output := output_exchanges rs (create base)
  registers := truthful _

/-- Reads of two widths take one byte each, and a read of the empty queue is all ones. -/
example : ((create 0).exchanges [.pushInput [0x61, 0x62], .peek 0 .byte, .read 0 .double,
    .write 0 .half 0x141, .read 0 .byte, .takeOutput, .read 0 .half]).map (·.answer) =
    [.done, .value 0x61, .value 0x61, .done, .value 0x62, .bytes [0x41], .value 0xFFFF] := by
  decide

end Processor64.Console
