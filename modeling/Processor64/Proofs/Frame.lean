import Processor64.Proofs.Completion
import Processor64.Proofs.Confinement
import Processor64.Proofs.Delivery

/-!
# What a completed cycle may change

A cycle that completes has fetched a word and performed its instruction, and it changes nothing
but what that instruction is there for (`cycle_framed`): of the general registers only the one in
the field R, of the control registers only the one a move names, mappings only in an instruction of
the translation buffer, bytes of memory only in a store and under it, and status bits only in a
return from a trap or a change of modes.
-/

namespace Processor64

variable {δ : Type}

namespace Registers

theorem generals_setGeneral_ne {s : Registers} {r q : Register} {v : Word}
    (h : (s.setGeneral r v).generals.get q.toFin ≠ s.generals.get q.toFin) : q = r ∧ q ≠ 0 := by
  unfold setGeneral at h
  split at h
  · exact absurd rfl h
  · rename_i hr
    by_cases hq : r.toNat = q.toNat
    · obtain rfl := BitVec.eq_of_toNat_eq hq
      exact ⟨rfl, hr⟩
    · exact absurd (Vector.getElem_set_ne r.isLt q.isLt hq) h

@[simp]
theorem generals_noteStore (s : Registers) (a : Word) (n : Nat) :
    (s.noteStore a n).generals = s.generals := by
  unfold noteStore
  split
  · split <;> rfl
  · rfl

theorem generals_dropReservation (s : Registers) (r : Register) (v : Word) :
    (s.dropReservation.setGeneral r v).generals = (s.setGeneral r v).generals :=
  generals_setGeneral_congr (show s.dropReservation.generals = s.generals from rfl) r v

theorem controlCell_setControlCell_ne {s : Registers} {c n : BitVec 4} {v : Word}
    (h : (s.setControlCell c v).controlCell n ≠ s.controlCell n) : n = c := by
  by_contra hne
  have hc : c.toNat ≠ n.toNat := fun hn => hne (BitVec.eq_of_toNat_eq hn.symm)
  simp [setControlCell, controlCell, hc] at h

end Registers

theorem StatusWord.withModes_ne {p : StatusWord} {modes : BitVec 3} {on : Bool} {k : Nat}
    (h : (p.withModes modes on).status.getLsbD k ≠ p.status.getLsbD k) :
    modes.getLsbD k = true := by
  by_contra hm
  rw [Bool.not_eq_true] at hm
  by_cases hk : k < 12
  · cases on <;> simp [withModes, hm, hk] at h
  · exact h (by rw [BitVec.getLsbD_of_ge _ _ (by omega), BitVec.getLsbD_of_ge _ _ (by omega)])

/-- A write changes only bytes that it covers, in the store of the I/O window as well. -/
theorem Memory.backing_write [Device δ] {m : Memory δ} {p v : Word} {w : Width}
    {r : Reply (Memory δ) Unit} (h : m.write p w v = .ok r) {b : Nat}
    (hb : r.after.io.backing.byte b ≠ m.io.backing.byte b) :
    p.inIoWindow = true ∧ p.toNat ≤ ioStart + b ∧ ioStart + b < p.toNat + w.bytes := by
  rw [byte_backing_write h] at hb
  obtain ⟨hp, -, hcovers⟩ := (ite_ne_right_iff.mp hb).1
  exact ⟨hp, hcovers⟩

/-- The instruction writes memory: it is a store, or a conditional store that has found a
reservation at its place and has set its register to one. -/
inductive Machine.Stores (m n : Machine δ) : Instruction → Word → Width → Prop where
  | store {w : Width} {r : Register} {x : MemoryOperand} {p : Word}
    (place : (m.place (x.address m.registers) w .write).1 = .ok p) :
    m.Stores n (.store w r x) p w
  | conditional {w : Width} {r : Register} {x : MemoryOperand} {p : Word}
    (place : (m.place (x.address m.registers) w .write).1 = .ok p)
    (reserved : m.registers.reservation.any (·.address == p) = true)
    (succeeds : n.registers.generals = (m.registers.setGeneral r 1).generals) :
    m.Stores n (.storeConditional w r x) p w

variable [Device δ]

namespace Machine.Performs

variable {m n : Machine δ} {i : Instruction} {flow : Flow}

/-- An instruction changes its destination and no other general register. -/
theorem destination (h : m.Performs i flow n) {q : Register}
    (hq : n.registers.generals.get q.toFin ≠ m.registers.generals.get q.toFin) :
    i.destination? = some q ∧ q ≠ 0 := by
  cases h with
  | @calculation _ o access comesTo =>
    obtain ⟨rfl, hne⟩ := Registers.generals_setGeneral_ne hq
    cases comesTo with
    | outcome register => exact ⟨register.resolve_left hne, hne⟩
  | read reads =>
    obtain ⟨rfl, hne⟩ := Registers.generals_setGeneral_ne hq
    refine ⟨?_, hne⟩
    cases i <;> cases reads <;> rfl
  | loadReserve | storeConditional | failedConditional | physicalAddress =>
    obtain ⟨rfl, hne⟩ := Registers.generals_setGeneral_ne hq
    exact ⟨rfl, hne⟩
  | modifyStatus =>
    obtain ⟨rfl, hne⟩ := Registers.generals_setGeneral_ne hq
    exact ⟨rfl, hne⟩
  | store => simp at hq
  | moveToControl | mapping | returnFromTrap | halt | diagnose => exact absurd rfl hq

/-- Only a move to a control register changes one. -/
theorem control (h : m.Performs i flow n) {c : BitVec 4}
    (hc : n.registers.controlCell c ≠ m.registers.controlCell c) :
    ∃ r, i = .moveToControl r c := by
  cases h with
  | moveToControl => exact ⟨_, by rw [Registers.controlCell_setControlCell_ne hc]⟩
  | mapping | returnFromTrap | halt | diagnose => exact absurd rfl hc
  | _ =>
    refine absurd ?_ hc
    simp [Registers.controlCell, Registers.reserve, Registers.dropReservation]

/-- Only an instruction on mappings changes them. -/
theorem mappings (h : m.Performs i flow n) (hc : n.tlb.contents ≠ m.tlb.contents) :
    i.isMapping = true := by
  cases h with
  | mapping mapping => exact mapping
  | physicalAddress => exact absurd (Tlb.contents_resolve _ _ _) hc
  | calculation | moveToControl | modifyStatus | returnFromTrap | halt | diagnose =>
    exact absurd rfl hc
  | _ => exact absurd (Machine.contents_place _ _ _ _) hc

/-- A byte of physical memory changes only by a store that covers it. -/
theorem stores_physical (h : m.Performs i flow n) {b : Nat}
    (hb : n.memory.physical.byte b ≠ m.memory.physical.byte b) :
    ∃ p w, m.Stores n i p w ∧ p.inIoWindow = false ∧ p.toNat ≤ b ∧ b < p.toNat + w.bytes := by
  cases h with
  | @store w _ _ p _ place replies =>
    rw [Memory.byte_write replies] at hb
    exact ⟨p, w, .store place, (ite_ne_right_iff.mp hb).1⟩
  | @storeConditional w _ _ p _ place reserved replies =>
    rw [Memory.byte_write replies] at hb
    exact ⟨p, w, .conditional place reserved (Registers.generals_dropReservation _ _ _),
      (ite_ne_right_iff.mp hb).1⟩
  | read _ replies | loadReserve replies =>
    rw [Memory.physical_read replies] at hb
    exact absurd rfl hb
  | _ => exact absurd rfl hb

/-- A byte behind the devices changes only by a store that covers it. -/
theorem stores_backing (h : m.Performs i flow n) {b : Nat}
    (hb : n.memory.io.backing.byte b ≠ m.memory.io.backing.byte b) :
    ∃ p w, m.Stores n i p w ∧ p.inIoWindow = true ∧ p.toNat ≤ ioStart + b ∧
      ioStart + b < p.toNat + w.bytes := by
  cases h with
  | store place replies => exact ⟨_, _, .store place, Memory.backing_write replies hb⟩
  | storeConditional place reserved replies =>
    exact ⟨_, _, .conditional place reserved (Registers.generals_dropReservation _ _ _),
      Memory.backing_write replies hb⟩
  | read _ replies | loadReserve replies =>
    rw [Memory.backing_read replies] at hb
    exact absurd rfl hb
  | _ => exact absurd rfl hb

/-- What the status bits are in the end, with where execution continues. -/
theorem status (h : m.Performs i flow n) {ia : BitVec 52} {k : Nat}
    (hk : (flow.status n.registers.status ia).status.getLsbD k ≠
      m.registers.status.status.getLsbD k) :
    i = .returnFromTrap ∨
      ∃ on r modes, i = .modifyStatus on r modes ∧ modes.getLsbD k = true := by
  cases h with
  | returnFromTrap => exact .inl rfl
  | modifyStatus => exact .inr ⟨_, _, _, rfl, StatusWord.withModes_ne hk⟩
  | @calculation _ o =>
    refine absurd ?_ hk
    rcases o with ⟨_ | _, _, _⟩ <;> simp [Outcome.flow, Flow.status, StatusWord.withAddress]
  | _ =>
    refine absurd ?_ hk
    simp [Flow.status, StatusWord.withAddress, Registers.reserve, Registers.dropReservation,
      Registers.setControlCell]

end Machine.Performs

/-- A cycle that has fetched `word` and performed `i` has changed nothing else. -/
structure Session.Framed (s : Session δ) (word : InstructionWord) (i : Instruction)
    (s₁ s' : Session δ) : Prop where
  fetched : Exec.fetch s.machine.registers.status.location s.begun = .ok word s₁
  decoded : Instruction.ofWord? word = some i
  generals : ∀ r : Register,
    s'.machine.registers.generals.get r.toFin ≠ s.machine.registers.generals.get r.toFin →
      r = word.r ∧ i.destination? = some r
  zero : s'.machine.registers.general 0 = 0 ∧
    s'.machine.registers.generals.get 0 = s.machine.registers.generals.get 0
  controls : ∀ c, s'.machine.registers.controlCell c ≠ s.machine.registers.controlCell c →
    c ≠ ControlRegister.cpuInfo.number ∧ c = word.b ∧ ∃ r, i = .moveToControl r c
  contents : s'.machine.tlb.contents ≠ s.machine.tlb.contents → i.isMapping = true
  physical : ∀ b,
    s'.machine.memory.physical.byte b ≠ s.machine.memory.physical.byte b →
      ∃ p w, s₁.machine.Stores s'.machine i p w ∧ p.inIoWindow = false ∧
        p.toNat ≤ b ∧ b < p.toNat + w.bytes
  backing : ∀ b,
    s'.machine.memory.io.backing.byte b ≠ s.machine.memory.io.backing.byte b →
      ∃ p w, s₁.machine.Stores s'.machine i p w ∧ p.inIoWindow = true ∧
        p.toNat ≤ ioStart + b ∧ ioStart + b < p.toNat + w.bytes
  status : ∀ k, 3 ≤ k →
    s'.machine.registers.status.status.getLsbD k ≠ s.machine.registers.status.status.getLsbD k →
      i = .returnFromTrap
  modes : ∀ k, k < 3 →
    s'.machine.registers.status.status.getLsbD k ≠ s.machine.registers.status.status.getLsbD k →
      i = .returnFromTrap ∨ ∃ on r, i = .modifyStatus on r (word.imm13.extractLsb' 0 3) ∧
        word.imm13.getLsbD k = true

omit [Device δ] in
/-- Whether an instruction stores does not depend on the instruction register. -/
theorem Machine.Stores.of_withInstruction {s : Session δ} {word : InstructionWord}
    {n n' : Machine δ} {i : Instruction} {p : Word} {w : Width}
    (h : (s.withInstruction word).machine.Stores n i p w)
    (hn : n'.registers.generals = n.registers.generals) : s.machine.Stores n' i p w := by
  cases h with
  | store place => exact .store place
  | @conditional _ r _ _ place reserved succeeds =>
    refine .conditional place reserved ?_
    rw [hn, succeeds]
    have hsame : (s.withInstruction word).machine.registers.generals =
      s.machine.registers.generals := rfl
    exact Registers.generals_setGeneral_congr hsame r 1

/-- A cycle that begins with a fetch has the registers, the mappings and the bytes of memory after
it that it had before. -/
theorem Session.fetch_keeps {s s₁ : Session δ} {a : Word} {word : InstructionWord}
    (h : Exec.fetch a s.begun = .ok word s₁) : s₁.machine.registers = s.machine.registers ∧
      s₁.machine.tlb.contents = s.machine.tlb.contents ∧
      s₁.machine.memory.physical = s.machine.memory.physical ∧
      s₁.machine.memory.io.backing = s.machine.memory.io.backing := by
  obtain ⟨_, reply, -, hr, -, hs₁⟩ := Exec.fetch_ok h
  rw [hs₁]
  exact ⟨rfl, Machine.contents_place _ _ _ _, Memory.physical_read hr, Memory.backing_read hr⟩

theorem Session.cycle_framed {s : Session δ} (h : s.trap? = none) :
    ∃ word i s₁, s.Framed word i s₁ s.cycle.2 := by
  obtain ⟨word, i, s₁, flow, n, hf, hi, hl, hperforms, hm⟩ := performs_of_cycle h
  obtain ⟨hregisters, hcontents, hphysical, hbacking⟩ := fetch_keeps hf
  have hfits := Instruction.fits_of_ofWord? hi
  have hgenerals : s.cycle.2.machine.registers.generals = n.registers.generals := by rw [hm]
  refine ⟨word, i, s₁, ?_⟩
  exact {
    fetched := hf
    decoded := hi
    generals := fun r hne => by
      rw [hm, ← hregisters] at hne
      have hd := (hperforms.destination hne).1
      exact ⟨hfits.destination r hd, hd⟩
    zero := by
      refine ⟨rfl, ?_⟩
      by_contra hne
      rw [hm, ← hregisters] at hne
      exact (hperforms.destination (q := 0) hne).2 rfl
    controls := fun c hne => by
      rw [hm, ← hregisters] at hne
      obtain ⟨r, rfl⟩ := hperforms.control hne
      refine ⟨?_, Instruction.control_of_ofWord? hi, r, rfl⟩
      rintro rfl
      cases hl
    contents := fun hne => by
      rw [hm, ← hcontents] at hne
      exact hperforms.mappings hne
    physical := fun b hne => by
      rw [hm, ← hphysical] at hne
      obtain ⟨p, w, hw, hcovers⟩ := hperforms.stores_physical hne
      exact ⟨p, w, hw.of_withInstruction hgenerals, hcovers⟩
    backing := fun b hne => by
      rw [hm, ← hbacking] at hne
      obtain ⟨p, w, hw, hcovers⟩ := hperforms.stores_backing hne
      exact ⟨p, w, hw.of_withInstruction hgenerals, hcovers⟩
    status := fun k hk hne => by
      rw [hm, ← hregisters] at hne
      rcases hperforms.status hne with hi | ⟨on, r, modes, rfl, hbit⟩
      · exact hi
      · have := modes.lt_of_getLsbD hbit
        omega
    modes := fun k hk hne => by
      rw [hm, ← hregisters] at hne
      rcases hperforms.status hne with hi | ⟨on, r, modes, rfl, hbit⟩
      · exact .inl hi
      · obtain rfl := Instruction.modes_of_ofWord? hi
        rw [BitVec.getLsbD_extractLsb'] at hbit
        simp only [Nat.zero_add, Bool.and_eq_true] at hbit
        exact .inr ⟨on, r, rfl, hbit.2⟩ }

/-- The store of the machine in user mode changes a byte of its one frame and nothing else. -/
theorem Session.ofUser_framed : ofUser.cycle.2.trap? = none ∧
    ofUser.cycle.2.cycle.2.machine.memory.physical.byte 0x100 ≠
      ofUser.cycle.2.machine.memory.physical.byte 0x100 ∧
    ∃ word i s₁, ofUser.cycle.2.Framed word i s₁ ofUser.cycle.2.cycle.2 :=
  have h : ofUser.cycle.2.trap? = none := by decide
  ⟨h, by decide, cycle_framed h⟩

end Processor64
