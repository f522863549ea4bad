import Processor64.Proofs.Confinement

/-!
# Secrecy from user mode

Two sessions that differ at most in physical memory, and there only outside the frames that user
mode may read or execute, go through the same cycles in user mode up to the first trap and with it:
they stop for the same reason and still differ only there (`cyclesToTrap_indistinguishable`).

The proof exchanges the physical memory of one session. A computation is blind to the exchange
(`Exec.Blind`) if its answer stays the same and the memories still agree on what user mode may see.
Every access of user mode is, since a place that translation finds for a read or a fetch lies in a
frame that user mode may see, and what a write does depends only on what is written.
-/

namespace Processor64

variable {δ α β : Type}

namespace Session

/-- The session with another physical memory. -/
def withPhysical (s : Session δ) (p : ByteStore) : Session δ :=
  s.mapMachine fun m => { m with memory.physical := p }

@[simp]
theorem registers_withPhysical (s : Session δ) (p : ByteStore) :
    (s.withPhysical p).machine.registers = s.machine.registers := rfl

@[simp]
theorem tlb_withPhysical (s : Session δ) (p : ByteStore) :
    (s.withPhysical p).machine.tlb = s.machine.tlb := rfl

/-- The physical memory is as large as that of the session, and agrees with it wherever user mode
may read or execute. -/
structure Alike (s : Session δ) (p : ByteStore) : Prop where
  size : p.size = s.machine.memory.physical.size
  bytes : ∀ b, s.machine.UserReaches [.read, .execute] b →
    p.byte b = s.machine.memory.physical.byte b

/-- User mode with address translation. -/
structure InUserMode (s : Session δ) : Prop where
  user : s.machine.registers.status.privileged = false
  translates : s.machine.registers.status.translates = true

variable {s s' : Session δ} {p : ByteStore}

theorem Alike.congr (h : s.Alike p)
    (hi : s'.machine.accessContext.protectionIds = s.machine.accessContext.protectionIds)
    (ht : s'.machine.tlb.contents = s.machine.tlb.contents)
    (hp : s'.machine.memory.physical = s.machine.memory.physical) : s'.Alike p where
  size := by rw [hp, h.size]
  bytes b hb := by
    rw [hp]
    exact h.bytes b ((Machine.userReaches_congr hi ht).mp hb)

theorem InUserMode.congr (h : s.InUserMode)
    (hs : s'.machine.registers.status = s.machine.registers.status) : s'.InUserMode where
  user := by rw [hs, h.user]
  translates := by rw [hs, h.translates]

end Session

/-- Whether an access stays in the I/O window or where user mode may read or execute. -/
def Machine.Readable (m : Machine δ) (p : Word) (w : Width) : Prop :=
  p.inIoWindow = false →
    ∀ b, p.toNat ≤ b → b < p.toNat + w.bytes → m.UserReaches [.read, .execute] b

/-- What is readable depends on the mappings and the protection ids alone. -/
theorem Machine.Readable.congr {m n : Machine δ} {p : Word} {w : Width} (h : m.Readable p w)
    (hi : n.accessContext.protectionIds = m.accessContext.protectionIds)
    (ht : n.tlb.contents = m.tlb.contents) : n.Readable p w :=
  fun hio b hlo hhi => (Machine.userReaches_congr hi ht).mpr (h hio b hlo hhi)

/-- A user's translated load or fetch is of bytes the user may read. -/
theorem Session.InUserMode.readable_of_place {s : Session δ} {a p : Word} {w : Width}
    {k : AccessKind} (hu : s.InUserMode) (hk : k ∈ [AccessKind.read, .execute])
    (h : (s.machine.place a w k).1 = .ok p) : s.machine.Readable p w := by
  intro hio
  rcases Machine.place_user hk hu.user hu.translates h with hp | hp
  · simp [hio] at hp
  · exact hp

/-- Whether every trap stops the machine: it is told so, or it has no handlers. -/
def Machine.StopsOnTrap (m : Machine δ) : Prop :=
  m.settings.trapPolicy = .halt ∨ m.registers.control .vectorAddress = 0

theorem Machine.StopsOnTrap.congr {m n : Machine δ} (h : m.StopsOnTrap)
    (hs : n.settings = m.settings) (hc : n.registers.controls = m.registers.controls) :
    n.StopsOnTrap := by
  rw [StopsOnTrap, Registers.control, Registers.controlCell, hs, hc]
  exact h

namespace Exec

/-- With physical memory `p` in the place of its own, the session gets the same answer, and what
user mode may see of the two memories still agrees. -/
def Blind (x : Exec δ α) (s : Session δ) (p : ByteStore) : Prop :=
  ∃ q, match x s with
    | .ok a s' => x (s.withPhysical p) = .ok a (s'.withPhysical q) ∧ s'.Alike q ∧ s'.InUserMode
    | .error t s' =>
      x (s.withPhysical p) = .error t (s'.withPhysical q) ∧ s'.Alike q ∧ s'.InUserMode

namespace Blind

variable {x : Exec δ α} {f : α → Exec δ β} {s s' : Session δ} {p : ByteStore}

theorem of_ok {u : Session δ} {a : α} (hp : u.Alike p) (hu : u.InUserMode) (h : x s = .ok a u)
    (h' : x (s.withPhysical p) = .ok a (u.withPhysical p)) : Blind x s p := by
  refine ⟨p, ?_⟩
  rw [h]
  exact ⟨h', hp, hu⟩

theorem of_error {u : Session δ} {t : Trap} (hp : u.Alike p) (hu : u.InUserMode)
    (h : x s = .error t u) (h' : x (s.withPhysical p) = .error t (u.withPhysical p)) :
    Blind x s p := by
  refine ⟨p, ?_⟩
  rw [h]
  exact ⟨h', hp, hu⟩

theorem pure (hp : s.Alike p) (hu : s.InUserMode) (a : α) : Blind (pure a : Exec δ α) s p :=
  of_ok hp hu rfl rfl

theorem throw (hp : s.Alike p) (hu : s.InUserMode) (t : Trap) :
    Blind (throw t : Exec δ α) s p :=
  of_error hp hu rfl rfl

theorem bind (hx : Blind x s p)
    (hf : ∀ a s' q, x s = .ok a s' → s'.Alike q → s'.InUserMode → Blind (f a) s' q) :
    Blind (x >>= f) s p := by
  obtain ⟨q, hq⟩ := hx
  unfold Blind
  show ∃ q, match EStateM.bind x f s with
    | .ok a s' => EStateM.bind x f (s.withPhysical p) = _ ∧ _
    | .error t s' => EStateM.bind x f (s.withPhysical p) = _ ∧ _
  unfold EStateM.bind
  rcases hs : x s with ⟨a, s'⟩ | ⟨t, s'⟩ <;> rw [hs] at hq <;> obtain ⟨he, hp', hu'⟩ := hq
  · rw [he]
    exact hf a s' q hs hp' hu'
  · exact ⟨q, by rw [he], hp', hu'⟩

theorem of_reads (hx : Reads x) (hp : s.Alike p) (hu : s.InUserMode) : Blind x s p := by
  obtain ⟨f, hf⟩ := hx
  exact of_ok hp hu (hf s) (hf (s.withPhysical p))

/-- A calculation cannot tell the sessions apart. -/
theorem of_calculates {i : Instruction} {x : Exec δ Flow} (hx : Calculates i x)
    (hp : s.Alike p) (hu : s.InUserMode) : Blind x s p := by
  obtain ⟨f, -, hf⟩ := hx
  have hs := hf s
  have hs' := hf (s.withPhysical p)
  rw [Session.registers_withPhysical, Session.tlb_withPhysical] at hs'
  rcases h : f s.machine.registers s.machine.tlb with t | o
  · rw [h] at hs hs'
    exact of_error hp hu hs hs'
  · rw [h] at hs hs'
    refine of_ok (u := s.withRegisters (s.machine.registers.setGeneral o.register o.value))
      (hp.congr (Machine.protectionIds_congr ?_) rfl rfl) (hu.congr ?_) hs hs'
    · simp
    · simp

theorem translate (hp : s.Alike p) (hu : s.InUserMode) (a : Word) (w : Width) (k : AccessKind) :
    Blind (translate a w k) s p := by
  have ht := Machine.contents_place s.machine a w k
  rcases hr : (s.machine.place a w k).1 with e | q
  · exact of_error (u := s.withTlb (s.machine.place a w k).2) (hp.congr rfl ht rfl)
      (hu.congr rfl) (translate_eq_error.mpr ⟨hr, rfl⟩) (translate_eq_error.mpr ⟨hr, rfl⟩)
  · exact of_ok (u := s.withTlb (s.machine.place a w k).2) (hp.congr rfl ht rfl)
      (hu.congr rfl) (translate_eq_ok.mpr ⟨hr, rfl⟩) (translate_eq_ok.mpr ⟨hr, rfl⟩)

/-- What the I/O window replies does not depend on physical memory. -/
theorem of_io (hp : s.Alike p) (hu : s.InUserMode) (r : Except Trap (Reply (IoWindow δ) α))
    (h : ∀ p, x (s.withPhysical p) =
      absorb (r.map (·.within fun io => { (s.withPhysical p).machine.memory with io := io }))
        (s.withPhysical p)) : Blind x s p := by
  have hs := h s.machine.memory.physical
  have hs' := h p
  rcases r with e | reply
  · exact of_error hp hu hs hs'
  · exact of_ok (u := s.afterReply (reply.within fun io => { s.machine.memory with io := io }))
      (hp.congr rfl rfl rfl) (hu.congr rfl) hs hs'

/-- An answer of physical memory is the same for both if the bytes that it covers are. -/
theorem of_physical {x : Exec δ Word} (hp : s.Alike p) (hu : s.InUserMode)
    (f : ByteStore → Except Trap Word) (hf : f p = f s.machine.memory.physical)
    (h : ∀ p, x (s.withPhysical p) =
      absorb ((f p).map fun v => ⟨v, (s.withPhysical p).machine.memory, []⟩)
        (s.withPhysical p)) : Blind x s p := by
  have hs := h s.machine.memory.physical
  have hs' := h p
  rw [hf] at hs'
  rcases hr : f s.machine.memory.physical with e | v <;> rw [hr] at hs hs'
  · exact of_error hp hu hs hs'
  · exact of_ok (u := s.afterReply (⟨v, s.machine.memory, []⟩ : Reply (Memory δ) Word))
      (hp.congr rfl rfl rfl) (hu.congr rfl) hs hs'

theorem count (hp : s.Alike p) (hu : s.InUserMode) (f : Counters → Counters) :
    Blind (count f) s p :=
  of_ok (u := s.count f) (hp.congr rfl rfl rfl) (hu.congr rfl) rfl rfl

theorem mapRegisters (hp : s.Alike p) (hu : s.InUserMode) {f : Registers → Registers}
    (hc : ∀ r, (f r).controls = r.controls) (hs : ∀ r, (f r).status = r.status) :
    Blind (mapRegisters f) s p :=
  of_ok (u := s.withRegisters (f s.machine.registers))
    (hp.congr (Machine.protectionIds_congr (hc _)) rfl rfl) (hu.congr (hs _)) rfl rfl

theorem result (hp : s.Alike p) (hu : s.InUserMode) (r : Register) (v : Word) :
    Blind (result r v) s p :=
  of_ok (u := s.withRegisters (s.machine.registers.setGeneral r v))
    (hp.congr (Machine.protectionIds_congr (Registers.controls_setGeneral _ _ _)) rfl rfl)
    (hu.congr (Registers.status_setGeneral _ _ _)) rfl rfl

variable [Device δ] {a q v : Word} {w : Width} {k : AccessKind} {signed : Bool}

/-- A read of bytes the user may read cannot tell the sessions apart. -/
theorem readMemory (hp : s.Alike p) (hu : s.InUserMode) (hq : s.machine.Readable q w) :
    Blind (readMemory q w signed) s p := by
  rcases hio : q.inIoWindow
  · refine of_physical hp hu (·.read q w signed) ?_ fun p => ?_
    · exact ByteStore.read_congr hp.size (fun b hlo hhi => hp.bytes b (hq hio b hlo hhi)) signed
    · rw [readMemory_apply, Memory.read_physical hio]
      rfl
  · refine of_io hp hu (s.machine.memory.io.read q w signed) fun p => ?_
    rw [readMemory_apply, Memory.read_io hio]
    rfl

theorem previewMemory (hp : s.Alike p) (hu : s.InUserMode) (hq : s.machine.Readable q w) :
    Blind (previewMemory q w signed) s p := by
  rcases hio : q.inIoWindow
  · refine of_physical hp hu (·.read q w signed) ?_ fun p => ?_
    · exact ByteStore.read_congr hp.size (fun b hlo hhi => hp.bytes b (hq hio b hlo hhi)) signed
    · rw [previewMemory_apply, Memory.preview_physical hio]
      rfl
  · refine of_io hp hu (s.machine.memory.io.preview q w signed) fun p => ?_
    rw [previewMemory_apply, Memory.preview_io hio]
    rfl

/-- Both memories take over the same bytes. -/
theorem writeMemory (hp : s.Alike p) (hu : s.InUserMode) (q : Word) (w : Width) (v : Word) :
    Blind (writeMemory q w v) s p := by
  rcases hio : q.inIoWindow
  · have h : ∀ s' : Session δ, Exec.writeMemory q w v s' =
        absorb ((s'.machine.memory.physical.write q w v).map fun p =>
          ⟨(), { s'.machine.memory with physical := p }, []⟩) s' := fun s' => by
      rw [writeMemory_apply, Memory.write_physical hio]
    have hs := h s
    have hs' := h (s.withPhysical p)
    have hsize : (s.withPhysical p).machine.memory.physical.size =
      s.machine.memory.physical.size := hp.size
    by_cases hc : q.toNat + w.bytes ≤ s.machine.memory.physical.size
    · rw [ByteStore.write, ByteStore.covers, decide_eq_true hc] at hs
      rw [ByteStore.write, ByteStore.covers, hsize, decide_eq_true hc] at hs'
      refine ⟨p.setBytes q.toNat (v.lowBytes w.bytes), ?_⟩
      rw [hs]
      refine ⟨hs', ⟨?_, fun b hb => ?_⟩, hu.congr rfl⟩
      · show (p.setBytes _ _).size = (s.machine.memory.physical.setBytes _ _).size
        rw [ByteStore.size_setBytes, ByteStore.size_setBytes, hp.size]
      · show (p.setBytes _ _).byte b = (s.machine.memory.physical.setBytes _ _).byte b
        rw [ByteStore.byte_setBytes_lowBytes v b hc,
          ByteStore.byte_setBytes_lowBytes v b (hp.size ▸ hc), hp.bytes b hb]
    · rw [ByteStore.write, ByteStore.covers, decide_eq_false hc] at hs
      rw [ByteStore.write, ByteStore.covers, hsize, decide_eq_false hc] at hs'
      exact of_error hp hu hs hs'
  · refine of_io hp hu (s.machine.memory.io.write q w v) fun p => ?_
    rw [writeMemory_apply, Memory.write_io hio]
    rfl

theorem loadPlaced (hp : s.Alike p) (hu : s.InUserMode) :
    Blind (loadPlaced a w signed) s p := by
  refine bind (translate hp hu a w .read) fun q s₁ p₁ ht hp₁ hu₁ => ?_
  obtain ⟨hq, rfl⟩ := translate_eq_ok.mp ht
  refine bind (readMemory hp₁ hu₁ ?_) fun v s₂ p₂ _ hp₂ hu₂ => ?_
  · exact (hu.readable_of_place (by simp) hq).congr rfl (Machine.contents_place _ _ _ _)
  · exact bind (count hp₂ hu₂ _) fun _ s₃ p₃ _ hp₃ hu₃ => pure hp₃ hu₃ _

theorem previewLoad (hp : s.Alike p) (hu : s.InUserMode) :
    Blind (previewLoad a w signed) s p := by
  refine bind (translate hp hu a w .read) fun q s₁ p₁ ht hp₁ hu₁ => ?_
  obtain ⟨hq, rfl⟩ := translate_eq_ok.mp ht
  refine bind (previewMemory hp₁ hu₁ ?_) fun v s₂ p₂ _ hp₂ hu₂ => pure hp₂ hu₂ _
  exact (hu.readable_of_place (by simp) hq).congr rfl (Machine.contents_place _ _ _ _)

theorem commitLoad (hp : s.Alike p) (hu : s.InUserMode) (hq : s.machine.Readable q w) :
    Blind (commitLoad q w) s p :=
  bind (bind (readMemory hp hu hq) fun _ _ _ _ hp₁ hu₁ => pure hp₁ hu₁ _)
    fun _ _ _ _ hp₂ hu₂ => count hp₂ hu₂ _

theorem storePlaced (hp : s.Alike p) (hu : s.InUserMode) : Blind (storePlaced q w v) s p :=
  bind
    (bind (writeMemory hp hu q w v) fun _ _ _ _ hp₁ hu₁ =>
      mapRegisters hp₁ hu₁ (fun r => r.controls_noteStore q w.bytes)
        fun r => r.status_noteStore q w.bytes)
    fun _ _ _ _ hp₂ hu₂ => count hp₂ hu₂ _

theorem readable_of_previewLoad (hu : s.InUserMode)
    (h : Exec.previewLoad a w signed s = .ok (q, v) s') : s'.machine.Readable q w := by
  obtain ⟨_, hq, -, -, hs⟩ := previewLoad_ok h
  rw [hs]
  exact (hu.readable_of_place (by simp) hq).congr rfl (Machine.contents_place _ _ _ _)

theorem combine (word : InstructionWord) (o : Combination) (hp : s.Alike p)
    (hu : s.InUserMode) : Blind (combine word o) s p := by
  refine bind (of_reads (.operandAddress o.operand) hp hu) fun a s₁ p₁ _ hp₁ hu₁ => ?_
  refine bind (of_reads (.general o.register) hp₁ hu₁) fun old s₂ p₂ _ hp₂ hu₂ => ?_
  refine bind (previewLoad hp₂ hu₂) fun ⟨q, v⟩ s₃ p₃ hl hp₃ hu₃ => ?_
  refine bind (of_reads .status hp₃ hu₃) fun st s₄ p₄ hs hp₄ hu₄ => ?_
  obtain ⟨-, rfl⟩ := EStateM.Result.ok.inj hs
  generalize o.result? _ _ _ = y
  rcases y with _ | v'
  · exact throw hp₄ hu₄ _
  · exact bind (commitLoad hp₄ hu₄ (readable_of_previewLoad hu₂ hl))
      fun _ _ _ _ hp₅ hu₅ => result hp₅ hu₅ o.register v'

/-- No user instruction that accesses memory can tell the sessions apart. -/
theorem access {i : Instruction} (hi : i.isAccess = true) (word : InstructionWord)
    (ia : BitVec 52) (hp : s.Alike p) (hu : s.InUserMode) :
    Blind (Exec.perform word ia i) s p := by
  cases i <;> cases hi
  case memoryBinary op w r x m =>
    rw [perform_combination (i := .memoryBinary op w r x m) rfl]
    exact combine word _ hp hu
  case memoryCompare c w r x =>
    rw [perform_combination (i := .memoryCompare c w r x) rfl]
    exact combine word _ hp hu
  case load signed w r x =>
    refine bind (of_reads (.operandAddress x) hp hu) fun a s₁ p₁ _ hp₁ hu₁ => ?_
    refine bind (bind (loadPlaced hp₁ hu₁) fun _ _ _ _ hp₂ hu₂ => pure hp₂ hu₂ _)
      fun v s₃ p₃ _ hp₃ hu₃ => result hp₃ hu₃ r v
  case store w r x =>
    refine bind (of_reads (.operandAddress x) hp hu) fun a s₁ p₁ _ hp₁ hu₁ => ?_
    refine bind (of_reads (.general r) hp₁ hu₁) fun v s₂ p₂ _ hp₂ hu₂ => ?_
    refine bind (bind (translate hp₂ hu₂ a w .write) fun _ _ _ _ hp₃ hu₃ => storePlaced hp₃ hu₃)
      fun _ _ _ _ hp₄ hu₄ => pure hp₄ hu₄ _
  case loadReserve w r x =>
    refine bind (of_reads (.operandAddress x) hp hu) fun a s₁ p₁ _ hp₁ hu₁ => ?_
    refine bind (loadPlaced hp₁ hu₁) fun ⟨q, v⟩ s₂ p₂ _ hp₂ hu₂ => ?_
    refine bind (mapRegisters hp₂ hu₂ (fun _ => rfl) fun _ => rfl) fun _ s₃ p₃ _ hp₃ hu₃ => ?_
    exact result hp₃ hu₃ r v
  case storeConditional w r x =>
    refine bind (of_reads (.operandAddress x) hp hu) fun a s₁ p₁ _ hp₁ hu₁ => ?_
    refine bind (of_reads (.general r) hp₁ hu₁) fun v s₂ p₂ _ hp₂ hu₂ => ?_
    refine bind (translate hp₂ hu₂ a w .write) fun q s₃ p₃ _ hp₃ hu₃ => ?_
    refine bind (of_reads .registers hp₃ hu₃) fun _ s₄ p₄ _ hp₄ hu₄ => ?_
    refine bind (mapRegisters hp₄ hu₄ (fun _ => rfl) fun _ => rfl) fun _ s₅ p₅ _ hp₅ hu₅ => ?_
    split
    · exact bind (storePlaced hp₅ hu₅) fun _ _ _ _ hp₆ hu₆ => result hp₆ hu₆ r 1
    · exact bind (count hp₅ hu₅ _) fun _ _ _ _ hp₆ hu₆ => result hp₆ hu₆ r 0

/-- No user instruction can tell the sessions apart. -/
theorem perform {i : Instruction} (hi : i.isPrivileged = false) (word : InstructionWord)
    (ia : BitVec 52) (hp : s.Alike p) (hu : s.InUserMode) : Blind (perform word ia i) s p := by
  rcases ha : i.isAccess with _ | _
  · exact of_calculates (perform_calculation word ia ha hi) hp hu
  · exact access ha word ia hp hu

theorem fetch (hp : s.Alike p) (hu : s.InUserMode) (a : Word) : Blind (fetch a) s p := by
  refine bind (translate hp hu a .word .execute) fun q s₁ p₁ ht hp₁ hu₁ => ?_
  obtain ⟨hq, rfl⟩ := translate_eq_ok.mp ht
  refine bind (readMemory hp₁ hu₁ ?_) fun v s₂ p₂ _ hp₂ hu₂ => pure hp₂ hu₂ _
  exact (hu.readable_of_place (by simp) hq).congr rfl (Machine.contents_place _ _ _ _)

/-- No word that a user runs can tell the sessions apart. -/
theorem execute (word : InstructionWord) (ia : BitVec 52) (hp : s.Alike p) (hu : s.InUserMode) :
    Blind (execute word ia) s p := by
  rcases hw : word.isPrivileged with _ | _
  · rcases hi : Instruction.ofWord? word with _ | i
    · exact of_error (t := word.trap .illegalInstruction) hp hu (by simp [execute_apply, hw, hi])
        (by simp [execute_apply, hw, hi])
    · rcases hl : i.isLegal with _ | _
      · exact of_error (t := word.trap .illegalInstruction) hp hu
          (by simp [execute_apply, hw, hi, hl]) (by simp [execute_apply, hw, hi, hl])
      · rw [Instruction.isPrivileged_of_ofWord? hi] at hw
        have h : ∀ s' : Session δ, Exec.execute word ia s' = Exec.perform word ia i s' :=
          fun _ => execute_of_unprivileged hi hl hw
        simp only [Blind, h]
        exact perform hw word ia hp hu
  · exact of_error (t := word.trap .privilegeViolation) hp hu
      (by simp [execute_apply, hw, hu.user]) (by simp [execute_apply, hw, hu.user])

/-- No instruction that a user fetches can tell the sessions apart. -/
theorem instructionAt (ia : BitVec 52) (hp : s.Alike p) (hu : s.InUserMode) :
    Blind (instructionAt ia) s p := by
  refine bind (fetch hp hu _) fun word s₁ p₁ _ hp₁ hu₁ => ?_
  refine bind (mapRegisters hp₁ hu₁ (fun _ => rfl) fun _ => rfl) fun _ s₂ p₂ _ hp₂ hu₂ => ?_
  refine bind (execute word ia hp₂ hu₂) fun flow s₃ p₃ _ hp₃ hu₃ => ?_
  exact bind (count hp₃ hu₃ _) fun _ s₄ p₄ _ hp₄ hu₄ => pure hp₄ hu₄ _

end Blind

end Exec

namespace Session

variable {s : Session δ} {p : ByteStore}

theorem retire_withPhysical (s : Session δ) (p : ByteStore) (ia : BitVec 52) (flow : Flow) :
    (s.withPhysical p).retire ia flow =
      ((s.retire ia flow).1, (s.retire ia flow).2.withPhysical p) := by
  unfold retire
  rcases h : s.machine.settings.traceInstructions with _ | _ <;> cases flow <;>
    simp [withPhysical, mapMachine, emit, h]

theorem takeTrap_withPhysical (s : Session δ) (p : ByteStore) (t : Trap) (ia : BitVec 52) :
    (s.withPhysical p).takeTrap t ia =
      ((s.takeTrap t ia).1, (s.takeTrap t ia).2.withPhysical p) := by
  unfold takeTrap
  by_cases hv : s.machine.settings.trapPolicy = .vector ∧
      s.machine.registers.dropReservation.control .vectorAddress ≠ 0
  · rcases he : s.machine.handlerEntry with _ | entry <;>
      simp only [withPhysical, mapMachine, emit, hv, he, ne_eq, not_false_eq_true, and_self,
        if_true] <;> rfl
  · simp only [withPhysical, mapMachine, emit, hv, if_false]
    rfl

theorem protectionIds_takeTrap (s : Session δ) (t : Trap) (ia : BitVec 52) :
    (s.takeTrap t ia).2.machine.accessContext.protectionIds =
      s.machine.accessContext.protectionIds := by
  rcases takeTrap_cases s t ia with ⟨_, _, -, -, -, hn, -⟩ | ⟨-, hm⟩
  · have h : ∀ c ∈ [ControlRegister.protectionId0, .protectionId1, .protectionId2,
        .protectionId3], (s.takeTrap t ia).2.machine.registers.control c =
          s.machine.registers.control c :=
      fun c hc => hn _ (by revert c; decide)
    exact List.map_congr_left fun c hc => congrArg (BitVec.setWidth 32) (h c hc)
  · rw [hm]
    rfl

variable [Device δ]

/-- A cycle of user mode is blind to an exchange of physical memory, whether it traps or not. -/
theorem cycle_withPhysical (hp : s.Alike p) (hu : s.InUserMode) :
    (s.withPhysical p).trap? = s.trap? ∧ ∃ q,
      (s.withPhysical p).cycle = (s.cycle.1, s.cycle.2.withPhysical q) ∧ s.cycle.2.Alike q := by
  obtain ⟨q, hq⟩ := Exec.Blind.instructionAt (s := s.begun) s.machine.registers.status.address
    (hp.congr rfl rfl rfl) (hu.congr rfl)
  rcases hs : Exec.instructionAt s.machine.registers.status.address s.begun with
    ⟨flow, s₁⟩ | ⟨t, s₁⟩ <;> rw [hs] at hq <;> obtain ⟨hx, hp₁, hu₁⟩ := hq
  · obtain ⟨ht, hc⟩ := cycle_of_ok hs
    obtain ⟨ht', hc'⟩ := cycle_of_ok (s := s.withPhysical p) hx
    refine ⟨ht'.trans ht.symm, q, ?_, ?_⟩
    · rw [hc', hc]
      exact retire_withPhysical s₁ q _ flow
    · rw [hc]
      have hm := machine_retire s₁ s.machine.registers.status.address flow
      exact hp₁.congr (congrArg (·.accessContext.protectionIds) hm)
        (congrArg (·.tlb.contents) hm) (congrArg (·.memory.physical) hm)
  · obtain ⟨ht, hc⟩ := cycle_of_error hs
    obtain ⟨ht', hc'⟩ := cycle_of_error (s := s.withPhysical p) hx
    refine ⟨ht'.trans ht.symm, q, ?_, ?_⟩
    · rw [hc', hc]
      exact takeTrap_withPhysical s₁ q t _
    · rw [hc]
      refine hp₁.congr (protectionIds_takeTrap _ _ _) ?_ ?_ <;>
        rcases takeTrap_cases s₁ t s.machine.registers.status.address with
          ⟨_, _, -, -, -, -, hm⟩ | ⟨-, hm⟩ <;> rw [hm]

/-- Cycles up to the first that traps, and at most as many as there are to make. -/
def cyclesToTrap : Nat → Session δ → Option StopReason × Session δ
  | 0, s => (none, s)
  | n + 1, s =>
    match s.trap?, s.cycle with
    | some _, r => r
    | none, (some r, s) => (some r, s)
    | none, (none, s) => cyclesToTrap n s

/-- The sessions differ at most in physical memory, and there only where user mode may neither read
nor execute. -/
structure Indistinguishable (s t : Session δ) : Prop where
  apart : s.withPhysical t.machine.memory.physical = t
  alike : s.Alike t.machine.memory.physical

/-- Where every trap stops the machine, the cycles up to a trap are all the cycles. -/
theorem cyclesToTrap_eq_cycles (hstop : s.machine.StopsOnTrap) (hu : s.InUserMode) (n : Nat) :
    s.cyclesToTrap n = s.cycles n := by
  induction n generalizing s with
  | zero => rfl
  | succ n ih =>
    rw [cyclesToTrap, cycles]
    rcases ht : s.trap? with _ | t
    · have hc := confinedTo_of_cycle hu.user ht
      rcases h : s.cycle with ⟨_ | r, s'⟩
      · rw [h] at hc
        exact ih (hstop.congr hc.settings hc.controls)
          ⟨hc.privileged.trans hu.user, hc.translates.trans hu.translates⟩
      · rfl
    · obtain ⟨s₁, he, hc⟩ := cycle_of_trap ht
      have hk := Exec.keeps_of_instructionAt_error he
      have h₁ : s₁.machine.StopsOnTrap := hstop.congr hk.settings hk.controls
      rcases takeTrap_cases s₁ t s.machine.registers.status.address with
        ⟨_, _, -, hp, hv, -⟩ | ⟨h, -⟩
      · rcases h₁ with h₁ | h₁
        · simp [h₁] at hp
        · exact absurd h₁ hv
      · rw [← hc] at h
        rcases hr : s.cycle with ⟨r, s'⟩
        rw [hr] at h
        subst h
        rfl

/-- Nothing that user mode may neither read nor execute has an influence, up to the first trap and
with it; where that trap stops the machine, this is all that the machine does. -/
theorem cyclesToTrap_indistinguishable {t : Session δ} (h : s.Indistinguishable t)
    (hu : s.InUserMode) (n : Nat) :
    ((s.cyclesToTrap n).1 = (t.cyclesToTrap n).1 ∧
      (s.cyclesToTrap n).2.Indistinguishable (t.cyclesToTrap n).2) ∧
    (s.machine.StopsOnTrap →
      s.cyclesToTrap n = s.cycles n ∧ t.cyclesToTrap n = t.cycles n) := by
  constructor
  · induction n generalizing s t with
    | zero => exact ⟨rfl, h⟩
    | succ n ih =>
      obtain ⟨ht, q, hc, hq⟩ := cycle_withPhysical h.alike hu
      rw [h.apart] at ht hc
      have hnext : s.cycle.2.Indistinguishable (s.cycle.2.withPhysical q) := ⟨rfl, hq⟩
      rw [cyclesToTrap, cyclesToTrap, ht, hc]
      rcases hs : s.trap? with _ | t
      · have huser := confinedTo_of_cycle hu.user hs
        rcases hr : s.cycle with ⟨_ | r, s'⟩ <;> rw [hr] at hnext huser
        · exact ih hnext
            ⟨huser.privileged.trans hu.user, huser.translates.trans hu.translates⟩
        · exact ⟨rfl, hnext⟩
      · exact ⟨rfl, hnext⟩
  · intro hstop
    refine ⟨cyclesToTrap_eq_cycles hstop hu n, cyclesToTrap_eq_cycles ?_ ?_ n⟩
    · rw [← h.apart]
      exact hstop
    · rw [← h.apart]
      exact hu.congr rfl

/-- The machine in user mode, with another byte on a page that it does not map. -/
def ofUserAside : Session Empty :=
  ofUser.withPhysical (ofUser.machine.memory.physical.setByte 0x5000 7)

theorem ofUser_indistinguishable :
    ofUser.machine.memory.physical.byte 0x5000 ≠ ofUserAside.machine.memory.physical.byte 0x5000 ∧
      ((ofUser.cyclesToTrap 2).1 = (ofUserAside.cyclesToTrap 2).1 ∧
        (ofUser.cyclesToTrap 2).2.Indistinguishable (ofUserAside.cyclesToTrap 2).2) ∧
      (ofUser.machine.StopsOnTrap → ofUser.cyclesToTrap 2 = ofUser.cycles 2 ∧
        ofUserAside.cyclesToTrap 2 = ofUserAside.cycles 2) :=
  have h : ofUser.Indistinguishable ofUserAside := by
    refine ⟨rfl, ByteStore.size_setByte _ _ _, fun b hb => ?_⟩
    obtain ⟨slot, hs, -, -, -, hframe⟩ := hb
    obtain rfl := List.mem_singleton.mp hs
    refine (ByteStore.byte_setByte _ _ _ _).trans (if_neg ?_)
    rintro ⟨rfl, -⟩
    exact absurd hframe (by decide)
  ⟨by decide, cyclesToTrap_indistinguishable h ⟨by decide, by decide⟩ 2⟩

end Session

end Processor64
