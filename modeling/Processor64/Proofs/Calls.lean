import Processor64.Proofs.Branches

/-!
# Calls and returns

A call is a branch that leaves the address of the following instruction in a register other than
register 0, and a return is a branch to that register. The return goes on where the program would
have gone on without the call (`returned_after_call`), with one exception: after the last
instruction that 52 bits address, the link is an address of 53 bits, which no branch goes to, while
an instruction that is no branch goes on at address 0 (`ofLastCall_not_returned`).
-/

namespace Processor64

variable {δ : Type}

namespace InstructionWord

/-- A branch that leaves the address of the following instruction in a register. -/
structure IsCall (w : InstructionWord) : Prop where
  group : w.group = 2
  family : w.family ∈ [1, 2, 3]
  linked : w.r ≠ 0

/-- The branch to the address in a register that leaves no address. -/
structure IsReturn (w : InstructionWord) (r : Register) : Prop where
  group : w.group = 2
  family : w.family = 2
  base : w.b = r
  unlinked : w.r = 0

/-- The instruction that does nothing. -/
structure IsNop (w : InstructionWord) : Prop where
  group : w.group = 0
  family : w.family = 0

variable {w : InstructionWord} {r : Register}

theorem IsCall.isBranch (h : w.IsCall) : w.IsBranch where
  group := h.group
  family := by
    have hf := h.family
    simp only [List.mem_cons, List.not_mem_nil, or_false] at hf
    rcases hf with hf | hf | hf <;> simp [hf]

theorem IsCall.links (h : w.IsCall) : w.links = true := by
  have hf := h.family
  simp only [List.mem_cons, List.not_mem_nil, or_false] at hf
  rcases hf with hf | hf | hf <;> simp [InstructionWord.links, hf]

theorem IsReturn.isBranch (h : w.IsReturn r) : w.IsBranch where
  group := h.group
  family := by simp [h.family]

theorem IsReturn.links (h : w.IsReturn r) : w.links = true := by
  simp [InstructionWord.links, h.family]

theorem IsReturn.target (h : w.IsReturn r) (s : Registers) (ia : BitVec 52) :
    w.target s ia = s.general r := by
  simp [InstructionWord.target, h.family, h.base]

theorem IsNop.ofWord? (h : w.IsNop) : Instruction.ofWord? w = some .nop := by
  simp [Instruction.ofWord?, Instruction.ofArithmeticWord?, h.group, h.family]

end InstructionWord

namespace StatusWord

/-- The address of the last instruction. -/
def lastAddress : BitVec 52 := 0xFFFFFFFFFFFFC

theorem withAddress_congr {p q : StatusWord} (h : p.status = q.status) (a : BitVec 52) :
    p.withAddress a = q.withAddress a := by
  rw [withAddress, withAddress, h]

end StatusWord

namespace Session

variable [Device δ] {s u n : Session δ} {call back idle : InstructionWord}

/-- A word that is fetched lies at an aligned address. -/
theorem Fetches.aligned {w : InstructionWord} (h : s.Fetches w) :
    s.machine.registers.status.address.toNat % 4 = 0 := by
  obtain ⟨s₁, hf⟩ := h
  obtain ⟨p, _, hp, -, -, -⟩ := Exec.fetch_ok hf
  have haligned : Width.word.isAligned s.machine.registers.status.location = true := by
    by_contra hna
    rw [Machine.place, if_neg hna] at hp
    cases hp
  simpa [Width.isAligned, Width.bytes, StatusWord.location] using haligned

theorem status_of_nop (hf : n.Fetches idle) (h : idle.IsNop) :
    n.cycle.2.machine.registers.status =
      n.machine.registers.status.withAddress (n.machine.registers.status.address + 4) := by
  obtain ⟨n₁, hf⟩ := hf
  have hp : idle.isPrivileged = false := Instruction.isPrivileged_of_ofWord? h.ofWord?
  have he : Exec.execute idle n.machine.registers.status.address (n₁.withInstruction idle) =
      .ok .next (n₁.withInstruction idle) := by
    rw [Exec.execute_apply, hp, h.ofWord?]
    rfl
  rw [(cycle_of_next hf he).2]

/-- What a call leaves for its return. -/
theorem linked_of_call (hf : s.Fetches call) (h : call.IsCall) (hr : s.trap? = none) :
    s.cycle.2.machine.registers.status.status = s.machine.registers.status.status ∧
      (s.cycle.2.machine.registers.general call.r).toNat =
        s.machine.registers.status.address.toNat + 4 := by
  have ht := InstructionWord.taken_of_links h.links s.machine.registers
  by_cases hreach : (s.branchTarget call).IsReachable
  · obtain ⟨-, hregisters⟩ := cycle_of_reachable hf h.isBranch ht hreach
    rw [hregisters]
    exact ⟨rfl, InstructionWord.general_linked h.links h.linked _ _⟩
  · cases hr.symm.trans (cycle_of_unreachable hf h.isBranch ht hreach).1

/-- How the return in `u` from the call in `s` ends, beside `n`, which does nothing in the place of
the call. -/
inductive ReturnEnds (s u n : Session δ) : Prop where
  | continues (before : s.machine.registers.status.address ≠ StatusWord.lastAddress)
    (retires : u.trap? = none)
    (status : u.cycle.2.machine.registers.status = n.cycle.2.machine.registers.status)
    (kept : u.cycle.2.machine.registers.status.status = s.machine.registers.status.status)
  | refused (last : s.machine.registers.status.address = StatusWord.lastAddress)
    (traps : u.trap? = some (.misaligned 0x10000000000000 .word))

theorem returned_after_call (hcall : call.IsCall) (hs : s.Fetches call) (hretires : s.trap? = none)
    (hback : back.IsReturn call.r) (hu : u.Fetches back)
    (hstatus : u.machine.registers.status = s.cycle.2.machine.registers.status)
    (hlink : u.machine.registers.general call.r = s.cycle.2.machine.registers.general call.r)
    (hidle : idle.IsNop) (hn : n.Fetches idle)
    (hbeside : n.machine.registers.status = s.machine.registers.status) :
    s.ReturnEnds u n := by
  obtain ⟨hkept, hlinked⟩ := linked_of_call hs hcall hretires
  have htaken := InstructionWord.taken_of_links hback.links u.machine.registers
  have htarget : (u.branchTarget back).toNat =
      s.machine.registers.status.address.toNat + 4 := by
    rw [branchTarget, hback.target, hlink, hlinked]
  have haligned := hs.aligned
  have hlt := s.machine.registers.status.address.isLt
  have hnext := status_of_nop hn hidle
  by_cases hlast : s.machine.registers.status.address = StatusWord.lastAddress
  · -- the link has 53 bits
    have htop : u.branchTarget back = 0x10000000000000 := by
      apply BitVec.eq_of_toNat_eq
      rw [htarget, hlast]
      rfl
    have hunreachable : ¬ (u.branchTarget back).IsReachable := by
      rw [htop]
      decide
    obtain ⟨htrap, -⟩ := cycle_of_unreachable hu hback.isBranch htaken hunreachable
    exact .refused hlast (htop ▸ htrap)
  · have hne : s.machine.registers.status.address.toNat ≠ 0xFFFFFFFFFFFFC :=
      fun h => hlast (BitVec.eq_of_toNat_eq h)
    have hreach : (u.branchTarget back).IsReachable := ⟨by omega, by omega⟩
    obtain ⟨hnone, hregisters⟩ := cycle_of_reachable hu hback.isBranch htaken hreach
    have haddress : (u.branchTarget back).extractLsb' 0 52 =
        s.machine.registers.status.address + 4 := by
      apply BitVec.eq_of_toNat_eq
      rw [BitVec.extractLsb'_toNat, Nat.shiftRight_zero, htarget, BitVec.toNat_add]
      rfl
    refine .continues hlast hnone ?_ ?_ <;> rw [hregisters]
    · rw [hnext, hbeside, haddress, hstatus]
      exact StatusWord.withAddress_congr hkept _
    · rw [hstatus]
      exact hkept

/-- A translating machine at one of the last four instructions of 52 bits, which are `words`. -/
def ofHighest (ia : BitVec 52) (words : List InstructionWord) : Session Empty where
  machine := {
    settings := {}
    registers := { Registers.cleared with status := ⟨5, ia⟩ }
    tlb := ((Tlb.create 2).insert ⟨0x3FFFFFFFFF, 1, 4, 0⟩).2
    memory := ⟨(ByteStore.zeros 0x8000).withProgram 0x7FF0 words, .create 0⟩
    state := .running
    lastTrap := none
    counters := {}
    handlerEntry := none }
  log := #[]

/-- The first of the four calls the third, which returns to the second. -/
def ofHighestCall : Session Empty :=
  ofHighest 0xFFFFFFFFFFFF0 [.pack 2 1 1 0 0 2, 0, .pack 2 2 0 0 1 0, 0]

theorem ofHighestCall_returned :
    ofHighestCall.ReturnEnds ofHighestCall.cycle.2 (ofHighest 0xFFFFFFFFFFFF0 [0, 0, 0, 0]) ∧
    ofHighestCall.cycle.2.machine.registers.status = ⟨5, 0xFFFFFFFFFFFF8⟩ ∧
    ofHighestCall.cycle.2.cycle.2.machine.registers.status = ⟨5, 0xFFFFFFFFFFFF4⟩ := by
  have hcall : InstructionWord.IsCall (.pack 2 1 1 0 0 2) := ⟨by decide, by decide, by decide⟩
  have hs : ofHighestCall.Fetches (.pack 2 1 1 0 0 2) := ⟨_, by rfl⟩
  have hback : InstructionWord.IsReturn (.pack 2 2 0 0 1 0) 1 := ⟨rfl, rfl, rfl, rfl⟩
  have hu : ofHighestCall.cycle.2.Fetches (.pack 2 2 0 0 1 0) := ⟨_, by rfl⟩
  have hn : (ofHighest 0xFFFFFFFFFFFF0 [0, 0, 0, 0]).Fetches 0 := ⟨_, by rfl⟩
  exact ⟨returned_after_call hcall hs (by rfl) hback hu rfl rfl ⟨rfl, rfl⟩ hn rfl, by rfl, by rfl⟩

/-- The last of the four calls the third. -/
def ofLastCall : Session Empty :=
  ofHighest StatusWord.lastAddress [0, 0, .pack 2 2 0 0 1 0, .pack 2 1 1 0 15 0x7FFF]

/-- The call completes and its return traps, where an instruction that does nothing goes on. -/
theorem ofLastCall_not_returned :
    (InstructionWord.IsCall (.pack 2 1 1 0 15 0x7FFF) ∧
      ofLastCall.Fetches (.pack 2 1 1 0 15 0x7FFF) ∧ ofLastCall.trap? = none) ∧
    (InstructionWord.IsReturn (.pack 2 2 0 0 1 0) 1 ∧
      ofLastCall.cycle.2.Fetches (.pack 2 2 0 0 1 0)) ∧
    (InstructionWord.IsNop 0 ∧ (ofHighest StatusWord.lastAddress [0, 0, 0, 0]).Fetches 0) ∧
    (ofHighest StatusWord.lastAddress [0, 0, 0, 0]).cycle.2.machine.registers.status = ⟨5, 0⟩ ∧
    ¬ (ofLastCall.cycle.2.trap? = none ∧
      ofLastCall.cycle.2.cycle.2.machine.registers.status =
        (ofHighest StatusWord.lastAddress [0, 0, 0, 0]).cycle.2.machine.registers.status) := by
  have htrap : ofLastCall.cycle.2.trap? = some (.misaligned 0x10000000000000 .word) := by rfl
  exact ⟨⟨⟨by decide, by decide, by decide⟩, ⟨_, by rfl⟩, by rfl⟩,
    ⟨⟨rfl, rfl, rfl, rfl⟩, _, by rfl⟩, ⟨⟨rfl, rfl⟩, _, by rfl⟩, by rfl,
    fun h => nomatch htrap.symm.trans h.1⟩

end Session

end Processor64
