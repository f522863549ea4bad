import Processor64.Proofs.Delivery

/-!
# What moves a run

Whether a machine may execute, its last trap, the handler it has entered, the address of its next
instruction, and the counts of cycles, completed instructions and traps make up its run. No
computation of an instruction touches them, whether it completes or traps (`steady_instructionAt`);
they move at the end of a cycle, and that in one of four ways (`turn_cycle`).
-/

namespace Processor64

variable {δ α β : Type}

/-- Settings and run are the same. -/
structure Machine.SameRun (m n : Machine δ) : Prop where
  settings : n.settings = m.settings
  state : n.state = m.state
  lastTrap : n.lastTrap = m.lastTrap
  handlerEntry : n.handlerEntry = m.handlerEntry
  address : n.registers.status.address = m.registers.status.address
  cycles : n.counters.cycles = m.counters.cycles
  retired : n.counters.retired = m.counters.retired
  traps : n.counters.traps = m.counters.traps
  trapsVectored : n.counters.trapsVectored = m.counters.trapsVectored

namespace Machine.SameRun

variable {m n o : Machine δ}

theorem refl (m : Machine δ) : m.SameRun m := ⟨rfl, rfl, rfl, rfl, rfl, rfl, rfl, rfl, rfl⟩

theorem trans (h : m.SameRun n) (h' : n.SameRun o) : m.SameRun o where
  settings := h'.settings.trans h.settings
  state := h'.state.trans h.state
  lastTrap := h'.lastTrap.trans h.lastTrap
  handlerEntry := h'.handlerEntry.trans h.handlerEntry
  address := h'.address.trans h.address
  cycles := h'.cycles.trans h.cycles
  retired := h'.retired.trans h.retired
  traps := h'.traps.trans h.traps
  trapsVectored := h'.trapsVectored.trans h.trapsVectored

theorem of_registers {r : Registers} (h : r.status.address = m.registers.status.address) :
    m.SameRun { m with registers := r } :=
  ⟨rfl, rfl, rfl, rfl, h, rfl, rfl, rfl, rfl⟩

theorem of_tlb (m : Machine δ) (t : Tlb) : m.SameRun { m with tlb := t } :=
  ⟨rfl, rfl, rfl, rfl, rfl, rfl, rfl, rfl, rfl⟩

theorem of_memory (m : Machine δ) (s : Memory δ) : m.SameRun { m with memory := s } :=
  ⟨rfl, rfl, rfl, rfl, rfl, rfl, rfl, rfl, rfl⟩

end Machine.SameRun

/-- The counts of a run are the same. -/
structure Counters.SameRun (c d : Counters) : Prop where
  cycles : d.cycles = c.cycles
  retired : d.retired = c.retired
  traps : d.traps = c.traps
  trapsVectored : d.trapsVectored = c.trapsVectored

theorem Machine.SameRun.of_counters {m : Machine δ} {c : Counters}
    (h : m.counters.SameRun c) : m.SameRun { m with counters := c } :=
  ⟨rfl, rfl, rfl, rfl, rfl, h.cycles, h.retired, h.traps, h.trapsVectored⟩

namespace Exec

/-- However it ends, the computation leaves the run as it was. -/
structure Steady (x : Exec δ α) : Prop where
  ok : ∀ {s a s'}, x s = .ok a s' → (Session.machine s).SameRun (Session.machine s')
  error : ∀ {s t s'}, x s = .error t s' → (Session.machine s).SameRun (Session.machine s')

namespace Steady

theorem bind {x : Exec δ α} {f : α → Exec δ β} (hx : Steady x) (hf : ∀ a, Steady (f a)) :
    Steady (x >>= f) where
  ok h := by
    obtain ⟨a, s₁, h₁, h₂⟩ := bind_eq_ok.mp h
    exact (hx.ok h₁).trans ((hf a).ok h₂)
  error h := by
    rcases bind_eq_error.mp h with h₁ | ⟨a, s₁, h₁, h₂⟩
    · exact hx.error h₁
    · exact (hx.ok h₁).trans ((hf a).error h₂)

/-- A computation that always answers is steady if the session it leaves has the same run. -/
theorem of_apply {x : Exec δ α} {f : Session δ → α} {g : Session δ → Session δ}
    (h : ∀ s, x s = .ok (f s) (g s)) (hg : ∀ s : Session δ, s.machine.SameRun (g s).machine) :
    Steady x where
  ok {s _ _} hx := by
    rw [h s] at hx
    obtain ⟨-, rfl⟩ := EStateM.Result.ok.inj hx
    exact hg s
  error {s _ _} hx := by
    rw [h s] at hx
    cases hx

theorem pure (a : α) : Steady (pure a : Exec δ α) := of_apply (fun _ => rfl) fun _ => .refl _

theorem throw (t : Trap) : Steady (throw t : Exec δ α) where
  ok h := by cases h
  error h := by
    obtain ⟨-, rfl⟩ := EStateM.Result.error.inj h
    exact .refl _

theorem machine : Steady (machine : Exec δ (Machine δ)) :=
  of_apply (fun _ => rfl) fun _ => .refl _

theorem registers : Steady (registers : Exec δ Registers) :=
  of_apply (fun _ => rfl) fun _ => .refl _

theorem status : Steady (status : Exec δ StatusWord) := of_apply (fun _ => rfl) fun _ => .refl _

theorem general (r : Register) : Steady (general r : Exec δ Word) :=
  of_apply (fun _ => rfl) fun _ => .refl _

theorem control (c : ControlRegister) : Steady (control c : Exec δ Word) :=
  of_apply (fun _ => rfl) fun _ => .refl _

theorem operandAddress (x : MemoryOperand) : Steady (operandAddress x : Exec δ Word) :=
  of_apply (fun _ => operandAddress_apply x) fun _ => .refl _

theorem mapTlb (t : Tlb) : Steady (mapMachine fun m : Machine δ => { m with tlb := t }) :=
  of_apply (fun _ => rfl) fun s => .of_tlb s.machine t

theorem mapRegisters {f : Registers → Registers}
    (h : ∀ r, (f r).status.address = r.status.address) :
    Steady (mapRegisters f : Exec δ Unit) :=
  of_apply (fun _ => rfl) fun s => .of_registers (h s.machine.registers)

theorem setGeneral (r : Register) (v : Word) : Steady (setGeneral r v : Exec δ Unit) :=
  mapRegisters fun s => by rw [Registers.status_setGeneral]

theorem result (r : Register) (v : Word) : Steady (result r v : Exec δ Flow) :=
  .bind (.setGeneral r v) fun _ => .pure _

theorem count {f : Counters → Counters} (h : ∀ c : Counters, c.SameRun (f c)) :
    Steady (count f : Exec δ Unit) :=
  of_apply (fun _ => rfl) fun s => .of_counters (h s.machine.counters)

theorem emit (es : List Event) : Steady (emit es : Exec δ Unit) :=
  of_apply (fun _ => rfl) fun _ => .refl _

theorem ofExcept (r : Except Trap α) : Steady (ofExcept r : Exec δ α) := by
  cases r
  · exact .throw _
  · exact .pure _

theorem ite {c : Prop} [Decidable c] {x y : Exec δ α} (hx : Steady x) (hy : Steady y) :
    Steady (if c then x else y) := by
  split <;> assumption

theorem of_calculates {i : Instruction} {x : Exec δ Flow} (h : Calculates i x) : Steady x := by
  obtain ⟨f, -, hf⟩ := h
  constructor
  · intro s a s' hx
    rw [hf] at hx
    split at hx
    · obtain ⟨-, rfl⟩ := EStateM.Result.ok.inj hx
      exact .of_registers (by rw [Registers.status_setGeneral])
    · cases hx
  · intro s t s' hx
    rw [hf] at hx
    split at hx
    · cases hx
    · obtain ⟨-, rfl⟩ := EStateM.Result.error.inj hx
      exact .refl _

/-! ## Accesses -/

/-- An access to memory changes nothing but the memory. -/
theorem absorb (r : Except Trap (Reply (Memory δ) α)) : Steady (absorb r) where
  ok h := by
    obtain ⟨reply, -, -, rfl⟩ := absorb_eq_ok.mp h
    exact .of_memory _ _
  error h := by
    obtain ⟨-, rfl⟩ := absorb_eq_error.mp h
    exact .refl _

/-- A translation changes nothing but the buffer. -/
theorem translate (a : Word) (w : Width) (k : AccessKind) :
    Steady (translate a w k : Exec δ Word) where
  ok h := by
    obtain ⟨-, rfl⟩ := translate_eq_ok.mp h
    exact .of_tlb _ _
  error h := by
    obtain ⟨-, rfl⟩ := translate_eq_error.mp h
    exact .of_tlb _ _

theorem resolve (a : Word) : Steady (resolve a : Exec δ Word) :=
  .bind .machine fun _ => .bind (.mapTlb _) fun _ => .ofExcept _

section Access

variable [Device δ]

theorem readMemory (p : Word) (w : Width) (signed : Bool) :
    Steady (readMemory p w signed : Exec δ Word) :=
  .bind .machine fun _ => .absorb _

theorem previewMemory (p : Word) (w : Width) (signed : Bool) :
    Steady (previewMemory p w signed : Exec δ Word) :=
  .bind .machine fun _ => .absorb _

theorem writeMemory (p : Word) (w : Width) (v : Word) :
    Steady (writeMemory p w v : Exec δ Unit) :=
  .bind .machine fun _ => .absorb _

theorem loadPlaced (a : Word) (w : Width) (signed : Bool) :
    Steady (loadPlaced a w signed : Exec δ (Word × Word)) :=
  .bind (.translate a w .read) fun p => .bind (.readMemory p w signed) fun _ =>
    .bind (.count fun _ => ⟨rfl, rfl, rfl, rfl⟩) fun _ => .pure _

theorem load (a : Word) (w : Width) (signed : Bool) : Steady (load a w signed : Exec δ Word) :=
  .bind (.loadPlaced a w signed) fun _ => .pure _

theorem previewLoad (a : Word) (w : Width) (signed : Bool) :
    Steady (previewLoad a w signed : Exec δ (Word × Word)) :=
  .bind (.translate a w .read) fun p => .bind (.previewMemory p w signed) fun _ => .pure _

theorem commitLoad (p : Word) (w : Width) : Steady (commitLoad p w : Exec δ Unit) where
  ok h := by
    obtain ⟨reply, -, hs⟩ := commitLoad_ok h
    rw [hs]
    exact (Machine.SameRun.of_memory _ reply.after).trans (.of_counters ⟨rfl, rfl, rfl, rfl⟩)
  error {s t s'} h := by
    simp only [Exec.commitLoad, bind_eq_error, discard_eq_error, readMemory_apply,
      absorb_eq_error, count_apply, reduceCtorEq, and_false, exists_false, or_false] at h
    obtain ⟨-, rfl⟩ := h
    exact .refl _

theorem hostStore (p : Word) (w : Width) (v : Word) : Steady (hostStore p w v : Exec δ Unit) :=
  .bind (.writeMemory p w v) fun _ => .mapRegisters fun r => by rw [Registers.status_noteStore]

theorem storePlaced (p : Word) (w : Width) (v : Word) :
    Steady (storePlaced p w v : Exec δ Unit) :=
  .bind (.hostStore p w v) fun _ => .count fun _ => ⟨rfl, rfl, rfl, rfl⟩

theorem store (a : Word) (w : Width) (v : Word) : Steady (store a w v : Exec δ Unit) :=
  .bind (.translate a w .write) fun p => .storePlaced p w v

theorem fetch (a : Word) : Steady (fetch a : Exec δ (BitVec 32)) :=
  .bind (.translate a .word .execute) fun p => .bind (.readMemory p .word false) fun _ => .pure _

end Access

end Steady

/-! ## Instructions -/

variable [Device δ]

theorem steady_combine (word : InstructionWord) (o : Combination) :
    Steady (combine word o : Exec δ Flow) := by
  refine .bind (.operandAddress o.operand) fun a => .bind (.general o.register) fun old =>
    .bind (.previewLoad a o.width true) fun ⟨p, v⟩ => .bind .status fun status => ?_
  rcases o.result? status.checksOverflow old v with _ | v'
  · exact .throw _
  · exact .bind (.commitLoad p o.width) fun _ => .result o.register v'

theorem steady_access (word : InstructionWord) (ia : BitVec 52) {i : Instruction}
    (hi : i.isAccess = true) : Steady (perform word ia i : Exec δ Flow) := by
  cases i <;> cases hi
  case memoryBinary op w r x m =>
    rw [perform_combination (i := .memoryBinary op w r x m) rfl]
    exact steady_combine word _
  case memoryCompare c w r x =>
    rw [perform_combination (i := .memoryCompare c w r x) rfl]
    exact steady_combine word _
  case load signed w r x =>
    exact .bind (.operandAddress x) fun a => .bind (.load a w signed) fun _ => .result r _
  case store w r x =>
    exact .bind (.operandAddress x) fun a => .bind (.general r) fun v =>
      .bind (.store a w v) fun _ => .pure _
  case loadReserve w r x =>
    exact .bind (.operandAddress x) fun a => .bind (.loadPlaced a w false) fun ⟨_, _⟩ =>
      .bind (.mapRegisters fun _ => rfl) fun _ => .result r _
  case storeConditional w r x =>
    refine .bind (.operandAddress x) fun a => .bind (.general r) fun v =>
      .bind (.translate a w .write) fun p => .bind .registers fun s =>
        .bind (.mapRegisters fun _ => rfl) fun _ => ?_
    split
    · exact .bind (.storePlaced p w v) fun _ => .result r 1
    · exact .bind (.count fun _ => ⟨rfl, rfl, rfl, rfl⟩) fun _ => .result r 0

theorem steady_privileged (word : InstructionWord) (ia : BitVec 52) {i : Instruction}
    (hi : i.isPrivileged = true) : Steady (perform word ia i : Exec δ Flow) := by
  cases i <;> cases hi
  case moveToControl r c =>
    exact .bind (.general r) fun _ => .bind (.mapRegisters fun _ => rfl) fun _ => .pure _
  case physicalAddress r b =>
    exact .bind (.general b) fun a => .bind (.resolve a) fun _ => .result r _
  case tlbInsert r b a =>
    exact .bind (.general r) fun _ => .bind (.general b) fun _ => .bind (.general a) fun _ =>
      .bind .machine fun _ => .bind (.mapTlb _) fun _ => .bind (.emit _) fun _ => .pure _
  case tlbPurge b =>
    exact .bind (.general b) fun _ => .bind .machine fun _ => .bind (.mapTlb _) fun _ =>
      .ite (.pure _) (.bind (.emit _) fun _ => .pure _)
  case tlbReset =>
    exact .bind (.of_apply (fun _ => rfl) fun s => .of_tlb s.machine _) fun _ => .pure _
  case modifyStatus on r modes =>
    -- the status word that it sets is the old one but for the modes
    exact .of_apply (fun _ => rfl) fun _ => .of_registers rfl
  case returnFromTrap => exact .bind (.control .trapStatus) fun _ => .pure _
  case halt | diagnose => exact .pure _

/-- Every instruction is steady. -/
theorem steady_perform (word : InstructionWord) (ia : BitVec 52) (i : Instruction) :
    Steady (perform word ia i : Exec δ Flow) := by
  rcases ha : i.isAccess with _ | _
  · rcases hp : i.isPrivileged with _ | _
    · exact .of_calculates (perform_calculation word ia ha hp)
    · exact steady_privileged word ia hp
  · exact steady_access word ia ha

theorem steady_execute (word : InstructionWord) (ia : BitVec 52) :
    Steady (execute word ia : Exec δ Flow) := by
  refine .bind .status fun _ => .ite (.bind (.throw _) fun _ => ?_) ?_ <;>
    rcases Instruction.ofWord? word with _ | i
  all_goals first
    | exact .throw _
    | exact .ite (steady_perform word ia i) (.throw _)

omit [Device δ] in
theorem steady_countGroup (word : InstructionWord) :
    Steady (countGroup word : Exec δ Unit) := by
  refine .count fun c => ?_
  split <;> exact ⟨rfl, rfl, rfl, rfl⟩

/-- An instruction leaves the run as it is up to the end of its cycle. -/
theorem steady_instructionAt (ia : BitVec 52) : Steady (instructionAt ia : Exec δ Flow) :=
  .bind (.fetch _) fun word => .bind (.mapRegisters fun _ => rfl) fun _ =>
    .bind (steady_execute word ia) fun flow => .bind (steady_countGroup word) fun _ => .pure flow

end Exec

/-! ## The end of a cycle -/

/-- The instruction of `m` has completed. -/
structure Machine.Completes (m n : Machine δ) : Prop where
  lastTrap : n.lastTrap = m.lastTrap
  handlerEntry : n.handlerEntry = none
  cycles : n.counters.cycles = m.counters.cycles + 1
  retired : n.counters.retired = m.counters.retired + 1
  traps : n.counters.traps = m.counters.traps
  trapsVectored : n.counters.trapsVectored = m.counters.trapsVectored

/-- The trap of the instruction of `m` has been recorded. -/
structure Machine.Records (m : Machine δ) (t : Trap) (n : Machine δ) : Prop where
  lastTrap : n.lastTrap = some ⟨t, m.registers.status.location⟩
  cycles : n.counters.cycles = m.counters.cycles + 1
  retired : n.counters.retired = m.counters.retired
  traps : n.counters.traps = (m.counters.recordTrap t.code).traps

/-- What a cycle that begins in `m` may do to the run, by its trap and its reason to stop. -/
inductive Machine.Turn (m : Machine δ) : Option Trap → Option StopReason → Machine δ → Prop where
  | goesOn {n : Machine δ} (state : n.state = m.state) (completes : m.Completes n) :
    m.Turn none none n
  | halts {n : Machine δ} (state : n.state = .halted) (completes : m.Completes n) :
    m.Turn none (some .halted) n
  | delivers {t : Trap} {n : Machine δ} (state : n.state = m.state) (records : m.Records t n)
    (handlerEntry : m.handlerEntry = none)
    (entered : ∃ vector, n.handlerEntry = some vector ∧ n.registers.status = .atStart vector)
    (trapsVectored : n.counters.trapsVectored = m.counters.trapsVectored + 1) :
    m.Turn (some t) none n
  | stops {t : Trap} {n : Machine δ} (state : n.state = .trapped) (records : m.Records t n)
    (trapsVectored : n.counters.trapsVectored = m.counters.trapsVectored)
    (address : n.registers.status.address = t.resumption m.registers.status.address) :
    m.Turn (some t) (some (.trapped ⟨t, m.registers.status.location⟩)) n

namespace Session

/-- Completing an instruction is no trap and no new cycle. -/
theorem counters_retire (s : Session δ) (ia : BitVec 52) (flow : Flow) :
    (s.retire ia flow).2.machine.counters.cycles = s.machine.counters.cycles ∧
      (s.retire ia flow).2.machine.counters.traps = s.machine.counters.traps ∧
      (s.retire ia flow).2.machine.counters.trapsVectored =
        s.machine.counters.trapsVectored := by
  rw [machine_retire]
  exact ⟨rfl, rfl, rfl⟩

/-- A trap is delivered only while no handler has been entered that has not completed an
instruction yet. -/
theorem handlerEntry_of_takeTrap {s : Session δ} {t : Trap} {ia : BitVec 52}
    (h : (s.takeTrap t ia).1 = none) : s.machine.handlerEntry = none := by
  by_contra he
  obtain ⟨entry, he⟩ := Option.ne_none_iff_exists'.mp he
  unfold takeTrap at h
  dsimp only at h
  rw [he] at h
  split at h <;> simp [stopTrapped] at h

/-- Every cycle takes one of the four turns. -/
theorem turn_cycle [Device δ] (s : Session δ) :
    s.machine.Turn s.trap? s.cycle.1 s.cycle.2.machine := by
  rcases ht : s.trap? with _ | t
  · obtain ⟨flow, s₁, he, hc⟩ := cycle_of_no_trap ht
    have hrun := (Exec.steady_instructionAt _).ok he
    have hm := machine_retire s₁ s.machine.registers.status.address flow
    obtain ⟨hcycles, htraps, hvectored⟩ :=
      counters_retire s₁ s.machine.registers.status.address flow
    have hcompletes : s.machine.Completes
        (s₁.retire s.machine.registers.status.address flow).2.machine := {
      lastTrap := (congrArg (·.lastTrap) hm).trans hrun.lastTrap
      handlerEntry := congrArg (·.handlerEntry) hm
      cycles := hcycles.trans hrun.cycles
      retired := by
        rw [retired_retire, hrun.retired]
        rfl
      traps := htraps.trans hrun.traps
      trapsVectored := hvectored.trans hrun.trapsVectored }
    rw [hc, retire_fst]
    by_cases hf : flow = .halt
    · rw [if_pos hf]
      exact .halts ((congrArg (·.state) hm).trans (if_pos hf)) hcompletes
    · rw [if_neg hf]
      exact .goesOn (((congrArg (·.state) hm).trans (if_neg hf)).trans hrun.state) hcompletes
  · obtain ⟨s₁, he, hc⟩ := cycle_of_trap ht
    have hrun := (Exec.steady_instructionAt _).error he
    have hrecords : ∀ {n : Machine δ},
        n.lastTrap = some ⟨t, s.machine.registers.status.location⟩ →
        n.counters.cycles = s₁.machine.counters.cycles →
        n.counters.retired = s₁.machine.counters.retired →
        n.counters.traps = (s₁.machine.counters.recordTrap t.code).traps →
        s.machine.Records t n := fun hlast hcycles hretired htraps => {
      lastTrap := hlast
      cycles := hcycles.trans hrun.cycles
      retired := hretired.trans hrun.retired
      traps := by
        rw [htraps, Counters.recordTrap, Counters.recordTrap, hrun.traps]
        rfl }
    rw [hc]
    rcases takeTrap_cases s₁ t s.machine.registers.status.address with
      ⟨_, _, hstop, -, -, -, hm⟩ | ⟨hstop, hm⟩
    · have hentry := handlerEntry_of_takeTrap hstop
      rw [hstop, hm]
      exact .delivers hrun.state (hrecords rfl rfl rfl rfl) (hrun.handlerEntry.symm.trans hentry)
        ⟨_, rfl, rfl⟩ (congrArg (· + 1) hrun.trapsVectored)
    · rw [hstop, hm]
      exact .stops rfl (hrecords rfl rfl rfl rfl) hrun.trapsVectored rfl

end Session

/-- The run is where a reason to stop says, or goes on without one. -/
def Machine.ComesTo (m : Machine δ) : Option StopReason → Prop
  | none => m.state = .running
  | some .halted => m.state = .halted
  | some (.trapped r) => m.state = .trapped ∧ m.lastTrap = some r ∧
      m.registers.status.address = r.trap.resumption (r.address.extractLsb' 0 52)
  | some .completed | some .budgetExhausted => False

theorem StatusWord.extractLsb'_location (p : StatusWord) :
    p.location.extractLsb' 0 52 = p.address := by
  apply BitVec.eq_of_toNat_eq
  simp only [location, BitVec.extractLsb'_toNat, BitVec.toNat_setWidth, Nat.shiftRight_zero]
  omega

/-- Cycles that stop leave the run where their reason says, and others leave it running. -/
theorem Session.comesTo_cycles [Device δ] : ∀ (n : Nat) {s : Session δ},
    s.machine.state = .running → (s.cycles n).2.machine.ComesTo (s.cycles n).1
  | 0, _, hs => hs
  | n + 1, s, hs => by
    have hturn := s.turn_cycle
    rw [Session.cycles]
    rcases hc : s.cycle with ⟨stop, s'⟩
    rw [hc] at hturn
    generalize s.trap? = trap at hturn
    dsimp only at hturn
    cases hturn with
    | goesOn state => exact comesTo_cycles n (state.trans hs)
    | delivers state => exact comesTo_cycles n (state.trans hs)
    | halts state => exact state
    | stops state records _ address =>
      refine ⟨state, records.lastTrap, ?_⟩
      rw [StatusWord.extractLsb'_location]
      exact address

end Processor64
