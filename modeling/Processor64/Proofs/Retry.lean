import Processor64.Proofs.Budget
import Processor64.Proofs.Lockstep
import Processor64.Proofs.Reservations
import Processor64.Proofs.Secrecy

/-!
# Instructions tried again

What an instruction finds depends on the general and control registers, the status word, the
contents of the translation buffer and the memory. Machines in which these are the same are akin
(`Machine.Akin`), and an instruction that traps in one traps the same way in the other
(`Exec.perform_repeats`). Only a conditional store looks at the reservation as well, which every
trap drops.

A trap that stops the machine leaves it akin to what it was, so each time that the host resumes it
the same instruction traps again, and nothing but counts and recency moves
(`Session.retries_alike`).
-/

namespace Processor64

variable {δ α β : Type}

/-- All that an instruction finds is the same, unless it asks for the reservation. -/
structure Machine.Akin (m n : Machine δ) : Prop where
  generals : n.registers.generals = m.registers.generals
  controls : n.registers.controls = m.registers.controls
  status : n.registers.status = m.registers.status
  contents : n.tlb.contents = m.tlb.contents
  memory : n.memory = m.memory

namespace Machine.Akin

variable {m n : Machine δ}

theorem accessContext (h : m.Akin n) : n.accessContext = m.accessContext := by
  rw [Machine.accessContext, Machine.accessContext, h.status]
  simp only [Registers.control, Registers.controlCell, h.controls]

theorem general (h : m.Akin n) (r : Register) : n.registers.general r = m.registers.general r := by
  rw [Registers.general, Registers.general, h.generals]

theorem control (h : m.Akin n) (c : ControlRegister) :
    n.registers.control c = m.registers.control c := by
  rw [Registers.control, Registers.control, Registers.controlCell, Registers.controlCell,
    h.controls]

theorem address (h : m.Akin n) (x : MemoryOperand) :
    x.address n.registers = x.address m.registers := by
  cases x <;> simp only [MemoryOperand.address, h.general]

/-- An access finds the same place. -/
theorem place (h : m.Akin n) (a : Word) (w : Width) (k : AccessKind) :
    (n.place a w k).1 = (m.place a w k).1 := by
  unfold Machine.place
  split
  · rw [h.accessContext, Tlb.translate_eq_of_contents h.contents]
  · rfl

theorem withTlb (h : m.Akin n) {t u : Tlb} (ht : u.contents = t.contents) :
    Machine.Akin { m with tlb := t } { n with tlb := u } :=
  ⟨h.generals, h.controls, h.status, ht, h.memory⟩

theorem withMemory (h : m.Akin n) (memory : Memory δ) :
    Machine.Akin { m with memory := memory } { n with memory := memory } :=
  ⟨h.generals, h.controls, h.status, h.contents, rfl⟩

end Machine.Akin

namespace Exec

/-- A trap of the computation is raised in every akin machine. -/
structure Repeats (x : Exec δ α) : Prop where
  error : ∀ {s s' t u}, (Session.machine s).Akin s'.machine → x s = .error t u →
    ∃ u', x s' = .error t u'

/-- In akin machines the computation ends alike, and leaves akin machines if it completes. -/
structure Settled (x : Exec δ α) : Prop extends Repeats x where
  ok : ∀ {s s' a u}, (Session.machine s).Akin s'.machine → x s = .ok a u →
    ∃ u', x s' = .ok a u' ∧ u.machine.Akin u'.machine

namespace Repeats

theorem bind {x : Exec δ α} {f : α → Exec δ β} (hx : Settled x) (hf : ∀ a, Repeats (f a)) :
    Repeats (x >>= f) where
  error hs h := by
    rcases bind_eq_error.mp h with h₁ | ⟨a, u, h₁, h₂⟩
    · obtain ⟨u', h₁'⟩ := hx.error hs h₁
      exact ⟨u', bind_eq_error.mpr (.inl h₁')⟩
    · obtain ⟨u', h₁', hu⟩ := hx.ok hs h₁
      rw [bind_of_eq_ok h₁']
      exact (hf a).error hu h₂

/-- Nothing traps after the first part of the computation. -/
theorem andThen {x : Exec δ α} {f : α → Exec δ β} {g : α → Session δ → β}
    {k : α → Session δ → Session δ} (hx : Repeats x) (hf : ∀ a s, f a s = .ok (g a s) (k a s)) :
    Repeats (x >>= f) where
  error hs h := by
    rcases bind_eq_error.mp h with h₁ | ⟨a, u, -, h₂⟩
    · obtain ⟨u', h₁'⟩ := hx.error hs h₁
      exact ⟨u', bind_eq_error.mpr (.inl h₁')⟩
    · rw [hf] at h₂
      cases h₂

/-- A computation that always answers has no traps to repeat. -/
theorem of_apply {x : Exec δ α} {f : Session δ → α} {g : Session δ → Session δ}
    (h : ∀ s, x s = .ok (f s) (g s)) : Repeats x where
  error _ hx := by
    rw [h] at hx
    cases hx

theorem throw (t : Trap) : Repeats (throw t : Exec δ α) where
  error := by
    rintro s s' _ u - ⟨⟩
    exact ⟨s', rfl⟩

theorem ite {c : Prop} [Decidable c] {x y : Exec δ α} (hx : Repeats x) (hy : Repeats y) :
    Repeats (if c then x else y) := by
  split <;> assumption

theorem result (r : Register) (v : Word) : Repeats (result r v : Exec δ Flow) :=
  of_apply fun _ => rfl

theorem checkedResult (word : InstructionWord) (r : Register) (v : Option Word) :
    Repeats (checkedResult word r v : Exec δ Flow) := by
  cases v
  · exact throw _
  · exact result r _

theorem branchTo (t : Word) : Repeats (branchTo t : Exec δ Flow) := by
  unfold Exec.branchTo
  exact ite (of_apply fun _ => rfl) (throw _)

theorem branchLinked (ia : BitVec 52) (r : Register) (t : Word) :
    Repeats (branchLinked ia r t : Exec δ Flow) :=
  (branchTo t).andThen fun _ _ => rfl

theorem resolve (a : Word) : Repeats (resolve a : Exec δ Word) where
  error {s s' t u} hs h := by
    have happly (s : Session δ) : Exec.resolve a s =
        ofExcept (s.machine.tlb.resolve a s.machine.accessContext).1
          (s.withTlb (s.machine.tlb.resolve a s.machine.accessContext).2) := rfl
    rw [happly, ofExcept_eq_error] at h
    rw [happly, Tlb.resolve_fst, Tlb.peek_eq_find?, hs.contents, hs.accessContext,
      ← Tlb.peek_eq_find?, ← Tlb.resolve_fst]
    exact ⟨_, ofExcept_eq_error.mpr ⟨h.1, rfl⟩⟩

end Repeats

namespace Settled

theorem bind {x : Exec δ α} {f : α → Exec δ β} (hx : Settled x) (hf : ∀ a, Settled (f a)) :
    Settled (x >>= f) where
  toRepeats := .bind hx fun a => (hf a).toRepeats
  ok hs h := by
    obtain ⟨a, u, h₁, h₂⟩ := bind_eq_ok.mp h
    obtain ⟨u', h₁', hu⟩ := hx.ok hs h₁
    rw [bind_of_eq_ok h₁']
    exact (hf a).ok hu h₂

/-- A computation is settled that looks at nothing but what akin machines share. -/
theorem of_view {x : Exec δ α} (v : Machine δ → α) (h : ∀ s, x s = .ok (v s.machine) s)
    (hv : ∀ {m n : Machine δ}, m.Akin n → v n = v m) : Settled x where
  toRepeats := .of_apply h
  ok {s s' a u} hs hx := by
    rw [h] at hx
    obtain ⟨rfl, rfl⟩ := EStateM.Result.ok.inj hx
    exact ⟨s', by rw [h, hv hs], hs⟩

theorem pure (a : α) : Settled (pure a : Exec δ α) :=
  of_view (fun _ => a) (fun _ => rfl) fun _ => rfl

theorem general (r : Register) : Settled (general r : Exec δ Word) :=
  of_view (·.registers.general r) (fun _ => rfl) (·.general r)

theorem status : Settled (status : Exec δ StatusWord) :=
  of_view (·.registers.status) (fun _ => rfl) (·.status)

theorem shiftAmount : Settled (shiftAmount : Exec δ Nat) :=
  of_view (fun m => (m.registers.control .shiftAmount).toNat % 64) (fun _ => rfl)
    fun h => by rw [h.control]

theorem operand (x : Operand) : Settled (operand x : Exec δ Word) := by
  cases x
  · exact general _
  · exact pure _

theorem operandAddress (x : MemoryOperand) : Settled (operandAddress x : Exec δ Word) :=
  of_view (fun m => x.address m.registers) (fun _ => operandAddress_apply x) (·.address x)

theorem count (f : Counters → Counters) : Settled (count f : Exec δ Unit) where
  toRepeats := .of_apply fun _ => rfl
  ok {s s' a u} hs hx := by
    obtain ⟨rfl, rfl⟩ := EStateM.Result.ok.inj hx
    exact ⟨s'.count f, rfl, hs.generals, hs.controls, hs.status, hs.contents, hs.memory⟩

theorem translate (a : Word) (w : Width) (k : AccessKind) :
    Settled (translate a w k : Exec δ Word) where
  ok {s s' p u} hs h := by
    obtain ⟨hp, rfl⟩ := translate_eq_ok.mp h
    refine ⟨_, translate_eq_ok.mpr ⟨(hs.place a w k).trans hp, rfl⟩, hs.withTlb ?_⟩
    rw [Machine.contents_place, Machine.contents_place, hs.contents]
  error hs h := by
    obtain ⟨hp, rfl⟩ := translate_eq_error.mp h
    exact ⟨_, translate_eq_error.mpr ⟨(hs.place a w k).trans hp, rfl⟩⟩

/-- What the memory replies is the same. -/
theorem of_absorb {x : Exec δ α} (f : Memory δ → Except Trap (Reply (Memory δ) α))
    (h : ∀ s, x s = absorb (f s.machine.memory) s) : Settled x where
  ok {s s' a u} hs hx := by
    rw [h] at hx
    obtain ⟨reply, hr, rfl, rfl⟩ := absorb_eq_ok.mp hx
    refine ⟨s'.afterReply reply, ?_, hs.withMemory reply.after⟩
    rw [h, hs.memory]
    exact absorb_eq_ok.mpr ⟨reply, hr, rfl, rfl⟩
  error {s s' t u} hs hx := by
    rw [h] at hx
    obtain ⟨hr, -⟩ := absorb_eq_error.mp hx
    refine ⟨s', ?_⟩
    rw [h, hs.memory]
    exact absorb_eq_error.mpr ⟨hr, rfl⟩

section Access

variable [Device δ] (a p v : Word) (w : Width) (signed : Bool)

theorem readMemory : Settled (readMemory p w signed : Exec δ Word) :=
  of_absorb (·.read p w signed) fun _ => rfl

theorem previewMemory : Settled (previewMemory p w signed : Exec δ Word) :=
  of_absorb (·.preview p w signed) fun _ => rfl

theorem writeMemory : Settled (writeMemory p w v : Exec δ Unit) :=
  of_absorb (·.write p w v) fun _ => rfl

theorem loadPlaced : Settled (loadPlaced a w signed : Exec δ (Word × Word)) :=
  .bind (.translate a w .read) fun p => .bind (.readMemory p w signed) fun _ =>
    .bind (.count _) fun _ => .pure _

theorem previewLoad : Settled (previewLoad a w signed : Exec δ (Word × Word)) :=
  .bind (.translate a w .read) fun p => .bind (.previewMemory p w signed) fun _ => .pure _

theorem commitLoad : Settled (commitLoad p w : Exec δ Unit) :=
  .bind (.bind (.readMemory p w false) fun _ => .pure _) fun _ => .count _

theorem fetch : Settled (fetch a : Exec δ (BitVec 32)) :=
  .bind (.translate a .word .execute) fun p => .bind (.readMemory p .word false) fun _ => .pure _

end Access

end Settled

/-! ## Instructions -/

variable [Device δ]

theorem combine_repeats (word : InstructionWord) (o : Combination) :
    Repeats (combine word o : Exec δ Flow) := by
  refine .bind (.operandAddress o.operand) fun a => .bind (.general o.register) fun old =>
    .bind (.previewLoad a o.width true) fun ⟨p, v⟩ => .bind .status fun status => ?_
  rcases o.result? status.checksOverflow old v with _ | v'
  · exact .throw _
  · exact .bind (.commitLoad p o.width) fun _ => .result o.register v'

/-- An access that traps does so again, a conditional store aside. -/
theorem access_repeats (word : InstructionWord) (ia : BitVec 52) {i : Instruction}
    (hi : i.isAccess = true) (hn : ∀ w r x, i ≠ .storeConditional w r x) :
    Repeats (perform word ia i : Exec δ Flow) := by
  cases i <;> cases hi
  case memoryBinary op w r x m =>
    rw [perform_combination (i := .memoryBinary op w r x m) rfl]
    exact combine_repeats word _
  case memoryCompare c w r x =>
    rw [perform_combination (i := .memoryCompare c w r x) rfl]
    exact combine_repeats word _
  case load signed w r x =>
    exact .bind (.operandAddress x) fun a => .bind (.bind (.loadPlaced a w signed) fun _ => .pure _)
      fun v => .result r v
  case store w r x =>
    exact .bind (.operandAddress x) fun a => .bind (.general r) fun v =>
      .andThen (.bind (.translate a w .write) fun p => .andThen (.andThen
        (Settled.writeMemory p v w).toRepeats fun _ _ => rfl) fun _ _ => rfl) fun _ _ => rfl
  case loadReserve w r x =>
    exact .bind (.operandAddress x) fun a => .andThen (Settled.loadPlaced a w false).toRepeats
      fun _ _ => rfl
  case storeConditional w r x => exact absurd rfl (hn w r x)

/-- A privileged instruction that traps does so again. -/
theorem privileged_repeats (word : InstructionWord) (ia : BitVec 52) {i : Instruction}
    (hi : i.isPrivileged = true) : Repeats (perform word ia i : Exec δ Flow) := by
  cases i <;> cases hi
  case physicalAddress r b =>
    exact .bind (.general b) fun a => .andThen (.resolve a) fun _ _ => rfl
  case tlbPurge b =>
    refine .bind (.general b) fun a => ⟨fun {s s' t u} _ h => ?_⟩
    simp only [bind_eq_error, machine_apply, mapMachine_apply, ite_apply,
      EStateM.Result.ok.injEq, reduceCtorEq, false_or] at h
    obtain ⟨_, _, ⟨rfl, rfl⟩, _, _, ⟨-, rfl⟩, h⟩ := h
    split at h <;> cases h
  all_goals exact .of_apply fun _ => rfl

/-- A calculation that traps does so again. -/
theorem calculation_repeats (word : InstructionWord) (ia : BitVec 52) {i : Instruction}
    (ha : i.isAccess = false) (hp : i.isPrivileged = false) :
    Repeats (perform word ia i : Exec δ Flow) := by
  cases i <;> cases ha <;> cases hp
  case binary op r b x m =>
    exact .bind (.general b) fun _ => .bind (.operand x) fun _ => .bind .status fun _ =>
      .checkedResult word r _
  case compare c r b x =>
    exact .bind (.general b) fun _ => .bind (.operand x) fun _ => .result r _
  case bitField op r b position last =>
    refine .bind (.general b) fun v => ?_
    cases op
    case deposit => exact .bind (.general r) fun _ => .result r _
    all_goals exact .result r _
  case shiftAdd left distance r b a =>
    exact .bind (.general b) fun _ => .bind (.general a) fun _ => .bind .status fun _ =>
      .checkedResult word r _
  case branch r d => exact .branchLinked ia r _
  case branchRegister r b => exact .bind (.general b) fun t => .branchLinked ia r t
  case branchIndexed r b a =>
    exact .bind (.general b) fun _ => .bind (.general a) fun _ => .branchLinked ia r _
  case branchBit sense r bit d =>
    have hbranch (p : Nat) : Repeats (do
        if (← Exec.general r).getLsbD p == sense then Exec.branchTo (relative ia d)
        else return .next : Exec δ Flow) :=
      .bind (.general r) fun _ => .ite (.branchTo _) (.of_apply fun _ => rfl)
    cases bit
    case fixed p => exact .bind (.pure p.toNat) hbranch
    case shiftAmount => exact .bind .shiftAmount hbranch
  case branchCompare c r b d =>
    exact .bind (.general r) fun _ => .bind (.general b) fun _ =>
      .ite (.branchTo _) (.of_apply fun _ => rfl)
  case branchTable b limit => exact .bind (.general b) fun _ => .branchTo _
  case probe kind r b =>
    rcases kind with _ | k
    · exact .throw _
    · exact .of_apply fun _ => rfl
  case trap r n => exact .bind (.general r) fun _ => .throw _
  all_goals exact .of_apply fun _ => rfl

/-- Of all instructions only a conditional store may find another trap in an akin machine. -/
theorem perform_repeats (word : InstructionWord) (ia : BitVec 52) {i : Instruction}
    (hn : ∀ w r x, i ≠ .storeConditional w r x) : Repeats (perform word ia i : Exec δ Flow) := by
  rcases ha : i.isAccess with _ | _
  · rcases hp : i.isPrivileged with _ | _
    · exact calculation_repeats word ia ha hp
    · exact privileged_repeats word ia hp
  · exact access_repeats word ia ha hn

/-- A word that traps does so again, unless it is a conditional store. -/
theorem execute_repeats {word : InstructionWord} (ia : BitVec 52)
    (hn : ∀ w r x, Instruction.ofWord? word ≠ some (.storeConditional w r x)) :
    Repeats (execute word ia : Exec δ Flow) where
  error {s s' t u} hs h := by
    rw [execute_apply, hs.status]
    rw [execute_apply] at h
    by_cases hp : (word.isPrivileged && !s.machine.registers.status.privileged) = true
    · rw [if_pos hp] at h ⊢
      obtain ⟨rfl, -⟩ := EStateM.Result.error.inj h
      exact ⟨s', rfl⟩
    · rw [if_neg hp] at h ⊢
      rcases hi : Instruction.ofWord? word with _ | i <;> rw [hi] at h
      · obtain ⟨rfl, -⟩ := EStateM.Result.error.inj h
        exact ⟨s', rfl⟩
      · have hperform := perform_repeats (δ := δ) word ia fun w r x hx => hn w r x (hx ▸ hi)
        obtain ⟨u', hu⟩ := (hperform.ite (c := i.isLegal = true) (.throw _)).error hs
          (by rwa [ite_apply])
        rw [ite_apply] at hu
        exact ⟨u', hu⟩

/-- A fetch that traps leaves the registers. -/
theorem registers_of_fetch_error {a : Word} {s u : Session δ} {t : Trap}
    (h : fetch a s = .error t u) : u.machine.registers = s.machine.registers := by
  simp only [fetch, bind_eq_error, translate_eq_ok, translate_eq_error, readMemory_apply,
    absorb_eq_error, pure_apply, reduceCtorEq, and_false, exists_false, or_false] at h
  rcases h with ⟨-, rfl⟩ | ⟨_, _, ⟨-, rfl⟩, -, rfl⟩ <;> rfl

/-- An instruction that traps leaves its word in the instruction register. -/
theorem instruction_of_execute_error {word : InstructionWord} {ia : BitVec 52} {s u : Session δ}
    {t : Trap} (h : execute word ia (s.withInstruction word) = .error t u) :
    u.machine.registers.instruction = word := by
  rcases execute_error h with ⟨rfl, -⟩ | ⟨i, -, hl, h⟩
  · rfl
  · have halike := perform_alike (δ := δ) (rfl : word.group = word.group) rfl ia hl s
    rw [h] at halike
    cases halike
    rfl

end Exec

/-! ## Cycles -/

namespace Session

variable [Device δ] {s s' : Session δ} {t : Trap}

/-- The word in the instruction register once the next cycle has fetched, or has failed to. -/
def nextWord (s : Session δ) : InstructionWord :=
  match Exec.fetch s.machine.registers.status.location s.begun with
  | .ok word _ => word
  | .error _ _ => s.machine.registers.instruction

/-- A trap of the next cycle comes from the fetch, or from the word that was fetched. -/
theorem instructionAt_error_cases {u : Session δ}
    (h : Exec.instructionAt s.machine.registers.status.address s.begun = .error t u) :
    Exec.fetch s.machine.registers.status.location s.begun = .error t u ∨
      ∃ word s₁, Exec.fetch s.machine.registers.status.location s.begun = .ok word s₁ ∧
        Exec.execute word s.machine.registers.status.address (s₁.withInstruction word) =
          .error t u := by
  simp only [Exec.instructionAt, Exec.bind_eq_error, Exec.mapRegisters_apply, Exec.countGroup,
    Exec.count_apply, Exec.pure_apply, EStateM.Result.ok.injEq, reduceCtorEq, and_false,
    exists_false, or_false, false_or] at h
  rcases h with h | ⟨word, s₁, hf, _, _, ⟨-, rfl⟩, he⟩
  · exact .inl h
  · exact .inr ⟨word, s₁, hf, he⟩

theorem instruction_of_error {u : Session δ}
    (h : Exec.instructionAt s.machine.registers.status.address s.begun = .error t u) :
    u.machine.registers.instruction = s.nextWord := by
  unfold nextWord
  rcases instructionAt_error_cases h with hf | ⟨word, s₁, hf, he⟩ <;> rw [hf]
  · exact congrArg (·.instruction) (Exec.registers_of_fetch_error hf)
  · exact Exec.instruction_of_execute_error he

omit [Device δ] in
theorem akin_begun (h : s.machine.Akin s'.machine) : s.begun.machine.Akin s'.begun.machine :=
  ⟨h.generals, h.controls, h.status, h.contents, h.memory⟩

omit [Device δ] in
theorem akin_withInstruction (h : s.machine.Akin s'.machine) (word : InstructionWord) :
    (s.withInstruction word).machine.Akin (s'.withInstruction word).machine :=
  ⟨h.generals, h.controls, h.status, h.contents, h.memory⟩

/-- The next instruction is not a conditional store. -/
def IgnoresReservation (s : Session δ) : Prop :=
  ∀ i s₁, s.fetched? = some (i, s₁) → ∀ w r x, i ≠ .storeConditional w r x

/-- Akin machines trap alike. -/
theorem trap?_of_akin (h : s.machine.Akin s'.machine) (hn : s.IgnoresReservation)
    (ht : s.trap? = some t) : s'.trap? = some t := by
  obtain ⟨u, he, -⟩ := cycle_of_trap ht
  have hstatus : s'.machine.registers.status = s.machine.registers.status := h.status
  rcases instructionAt_error_cases he with hf | ⟨word, s₁, hf, he⟩
  · obtain ⟨u', hf'⟩ := (Exec.Settled.fetch _).error (akin_begun h) hf
    rw [← hstatus] at hf'
    exact (cycle_of_error (Exec.bind_eq_error.mpr (.inl hf'))).1
  · obtain ⟨s₁', hf', h₁⟩ := (Exec.Settled.fetch _).ok (akin_begun h) hf
    have hword : ∀ w r x, Instruction.ofWord? word ≠ some (.storeConditional w r x) := by
      intro w r x hi
      have hfetched : s.fetched? = some (.storeConditional w r x, s₁) := by
        simp only [fetched?, hf, hi, Option.map_some]
      exact hn _ _ hfetched w r x rfl
    obtain ⟨u', he'⟩ := (Exec.execute_repeats _ hword).error (akin_withInstruction h₁ word) he
    rw [← hstatus] at hf' he'
    refine ((cycle_of_fetch hf').1).trans ?_
    rw [obeyTrap?, he']

/-- Akin machines fetch the same word. -/
theorem nextWord_of_akin (h : s.machine.Akin s'.machine)
    (hi : s'.machine.registers.instruction = s.nextWord) : s'.nextWord = s.nextWord := by
  have hstatus : s'.machine.registers.status = s.machine.registers.status := h.status
  rcases hf : Exec.fetch s.machine.registers.status.location s.begun with ⟨word, s₁⟩ | ⟨t, u⟩
  · obtain ⟨s₁', hf', -⟩ := (Exec.Settled.fetch _).ok (akin_begun h) hf
    rw [nextWord, nextWord, hstatus, hf, hf']
  · obtain ⟨u', hf'⟩ := (Exec.Settled.fetch _).error (akin_begun h) hf
    rw [nextWord, hstatus, hf']
    exact hi

end Session

/-! ## Trying again -/

/-- `n` is `m` after its next instruction, the word `word`, has raised a trap that stops it. -/
structure Machine.Stopped (m : Machine δ) (word : InstructionWord) (t : Trap) (n : Machine δ) :
    Prop where
  settings : n.settings = m.settings
  registers : n.registers = { m.registers with instruction := word, reservation := none }
  contents : n.tlb.contents = m.tlb.contents
  memory : n.memory = m.memory
  state : n.state = .trapped
  lastTrap : n.lastTrap = some ⟨t, m.registers.status.location⟩
  handlerEntry : n.handlerEntry = none

namespace Machine.Stopped

variable {m n o : Machine δ} {word : InstructionWord} {t : Trap}

/-- A machine that has stopped and is resumed finds what it found before. -/
theorem akin (h : m.Stopped word t n) : m.Akin { n with state := .running } where
  generals := by rw [h.registers]
  controls := by rw [h.registers]
  status := by rw [h.registers]
  contents := h.contents
  memory := h.memory

/-- Stopping again after a resumption is stopping once. -/
theorem again (h : m.Stopped word t n)
    (h' : Machine.Stopped { n with state := .running } word t o) : m.Stopped word t o where
  settings := h'.settings.trans h.settings
  registers := by rw [h'.registers, h.registers]
  contents := h'.contents.trans h.contents
  memory := h'.memory.trans h.memory
  state := h'.state
  lastTrap := by rw [h'.lastTrap, h.registers]
  handlerEntry := h'.handlerEntry

end Machine.Stopped

namespace Session

/-- A trapped session resumed for one cycle. -/
def retry [Device δ] (s : Session δ) : Except HostError StopReason × Session δ :=
  match s.resume with
  | (.ok (), s) => s.step 1
  | (.error e, s) => (.error e, s)

/-- The last answer of one step and `n` times a resumption and a step after it. -/
def retried [Device δ] (s : Session δ) : Nat → Except HostError StopReason × Session δ
  | 0 => s.step 1
  | n + 1 => (s.retried n).2.retry

variable [Device δ] {s s' : Session δ} {t : Trap}

/-- The trap of the next cycle, if it stops the machine, leaves all but the reservation. -/
theorem stopped_of_cycle (hd : ∀ d ∈ s.machine.memory.io.devices, ∃ c, d = .console c)
    (hstop : s.machine.StopsOnTrap) (ht : s.trap? = some t) (hc : t.code ≠ .software) :
    s.cycle.1 = some (.trapped ⟨t, s.machine.registers.status.location⟩) ∧
      s.machine.Stopped s.nextWord t s.cycle.2.machine := by
  obtain ⟨u, he, hcycle⟩ := cycle_of_trap ht
  have hword := instruction_of_error he
  obtain ⟨tlb, word, reservation, log, hcontents, hu⟩ :=
    Exec.touched_of_instructionAt_error (s := s.begun) hd he
  have hm : u.machine = { s.begun.machine with
      tlb := tlb
      registers := { s.machine.registers with
        instruction := word
        reservation := reservation } } := congrArg machine hu
  obtain rfl : word = s.nextWord := by rw [← hword, hm]
  rw [hcycle]
  rcases takeTrap_cases u t s.machine.registers.status.address with
    ⟨_, _, -, hpolicy, htable, -, -⟩ | ⟨hstops, hstopped⟩
  · rw [hm] at hpolicy htable
    rcases hstop with hstop | hstop
    · exact absurd (hpolicy.symm.trans hstop) (by decide)
    · exact absurd hstop htable
  · rw [hm, if_neg hc] at hstopped
    rw [hstops, hstopped]
    exact ⟨rfl, rfl, rfl, hcontents, rfl, rfl, rfl, rfl⟩

theorem step_one (hs : s.machine.state = .running) {r : StopReason} (h : s.cycle.1 = some r) :
    s.step 1 = (.ok r, s.cycle.2) := by
  rw [step_of_running hs, cycles]
  rcases hc : s.cycle with ⟨_ | q, s₁⟩ <;> rw [hc] at h <;> cases h
  rfl

/-- An instruction that has stopped the machine stops it in the same way if it is retried. -/
theorem retry_of_stopped (hd : ∀ d ∈ s.machine.memory.io.devices, ∃ c, d = .console c)
    (hstop : s.machine.StopsOnTrap) (ht : s.trap? = some t) (hc : t.code ≠ .software)
    (hn : s.IgnoresReservation) (h : s.machine.Stopped s.nextWord t s'.machine) :
    s'.retry.1 = .ok (.trapped ⟨t, s.machine.registers.status.location⟩) ∧
      s.machine.Stopped s.nextWord t s'.retry.2.machine := by
  let s₁ := (s'.mapMachine fun m => { m with state := .running }).emit
    [.resumed s'.machine.registers.status.location]
  have hretry : s'.retry = s₁.step 1 := by
    rw [retry, resume, if_pos h.state]
    rfl
  have hakin : s.machine.Akin s₁.machine := h.akin
  have hword : s₁.nextWord = s.nextWord :=
    nextWord_of_akin hakin (congrArg (·.instruction) h.registers)
  have hstatus : s₁.machine.registers.status = s.machine.registers.status := hakin.status
  have ht₁ := trap?_of_akin hakin hn ht
  have hd₁ : ∀ d ∈ s₁.machine.memory.io.devices, ∃ c, d = .console c := by
    rw [hakin.memory]
    exact hd
  obtain ⟨hstops, hstopped⟩ :=
    stopped_of_cycle hd₁ (hstop.congr h.settings hakin.controls) ht₁ hc
  rw [hretry, step_one rfl hstops, hstatus]
  rw [hword] at hstopped
  exact ⟨rfl, h.again hstopped⟩

/-- However often an instruction is retried that has stopped the machine, it gives the same answer
and leaves the same machine but for counts and recency. -/
theorem retries_alike (hs : s.machine.state = .running)
    (hd : ∀ d ∈ s.machine.memory.io.devices, ∃ c, d = .console c)
    (hstop : s.machine.StopsOnTrap) (ht : s.trap? = some t) (hc : t.code ≠ .software)
    (hn : s.IgnoresReservation) : ∃ word, ∀ n,
      (s.retried n).1 = .ok (.trapped ⟨t, s.machine.registers.status.location⟩) ∧
        s.machine.Stopped word t (s.retried n).2.machine := by
  refine ⟨s.nextWord, fun n => ?_⟩
  induction n with
  | zero =>
    obtain ⟨hstops, hstopped⟩ := stopped_of_cycle hd hstop ht hc
    rw [retried, step_one hs hstops]
    exact ⟨rfl, hstopped⟩
  | succ n ih => exact retry_of_stopped hd hstop ht hc hn ih.2

/-- A default machine whose first instruction loads a double word from address 1. -/
def ofMisaligned : Session Empty :=
  ((⟨.create {}, #[]⟩ : Session Empty).reset.perform
    (.hostStore 0 .word ((InstructionWord.pack 1 8 1 0 0 0x6001).setWidth 64))).2

theorem ofMisaligned_retries_alike : ofMisaligned.trap? = some (.misaligned 1 .double) ∧
    ∃ word, ∀ n, (ofMisaligned.retried n).1 = .ok (.trapped ⟨.misaligned 1 .double, 0⟩) ∧
      ofMisaligned.machine.Stopped word (.misaligned 1 .double)
        (ofMisaligned.retried n).2.machine := by
  have ht : ofMisaligned.trap? = some (.misaligned 1 .double) := by rfl
  have hload : ofMisaligned.fetched?.map Prod.fst =
      some (.load false .double 1 (.displaced 0 1)) := by rfl
  refine ⟨ht, retries_alike rfl (fun _ hd => ⟨_, List.mem_singleton.mp hd⟩) (.inr rfl) ht
    (by decide) ?_⟩
  rintro i s₁ hf w r x rfl
  rw [hf] at hload
  cases hload

end Session

end Processor64
