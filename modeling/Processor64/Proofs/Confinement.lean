import Processor64.Proofs.Ending

/-!
# Confinement of user mode

Until its first trap, code in user mode keeps control registers, status bits and the contents of
the translation buffer, and with translation on it changes physical memory only in the frames of
mappings that let user mode write (`Retires.confined`). So the frames it may write stay the same
all the while, and only a trap leaves user mode.
-/

namespace Processor64

variable {δ : Type}

/-- Whether the mapping is open to user mode, as far as rights of access are not concerned. -/
def Mapping.opensTo (m : Mapping) (protectionIds : List (BitVec 32)) : Bool :=
  m.userAccessible && (m.protectionId == 0 || protectionIds.contains m.protectionId)

namespace Machine

variable {m n l : Machine δ} {kinds : List AccessKind} {b : Nat}

/-- Whether the byte of physical memory lies in a frame that user mode may reach with an access of
one of the kinds. -/
def UserReaches (m : Machine δ) (kinds : List AccessKind) (b : Nat) : Prop :=
  ∃ slot ∈ m.tlb.slots, slot.valid = true ∧ (∃ k ∈ kinds, slot.mapping.allows k = true) ∧
    slot.mapping.opensTo m.accessContext.protectionIds = true ∧
    b / pageSize = slot.mapping.frame.toNat

theorem userReaches_iff : m.UserReaches kinds b ↔
    ∃ x, (true, x) ∈ m.tlb.contents ∧ (∃ k ∈ kinds, x.allows k = true) ∧
      x.opensTo m.accessContext.protectionIds = true ∧ b / pageSize = x.frame.toNat := by
  constructor
  · rintro ⟨slot, hs, hv, hx⟩
    exact ⟨slot.mapping, Tlb.mem_contents.mpr ⟨slot, hs, hv, rfl⟩, hx⟩
  · rintro ⟨x, hx, h⟩
    obtain ⟨slot, hs, hv, rfl⟩ := Tlb.mem_contents.mp hx
    exact ⟨slot, hs, hv, h⟩

theorem protectionIds_congr (h : n.registers.controls = m.registers.controls) :
    n.accessContext.protectionIds = m.accessContext.protectionIds := by
  simp only [accessContext, Registers.control, Registers.controlCell, h]

theorem userReaches_congr (hi : n.accessContext.protectionIds = m.accessContext.protectionIds)
    (ht : n.tlb.contents = m.tlb.contents) : n.UserReaches kinds b ↔ m.UserReaches kinds b := by
  rw [userReaches_iff, userReaches_iff, ht, hi]

/-- A place found for an access of user mode lies in the I/O window or in a frame that user mode
may reach with such an access. -/
theorem place_user {a p : Word} {w : Width} {k : AccessKind} (hk : k ∈ kinds)
    (hu : m.registers.status.privileged = false) (ht : m.registers.status.translates = true)
    (h : (m.place a w k).1 = .ok p) :
    p.inIoWindow = true ∨
      ∀ b, p.toNat ≤ b → b < p.toNat + w.bytes → m.UserReaches kinds b := by
  unfold place at h
  split at h
  · rename_i ha
    rcases Tlb.translate_eq_ok h with ⟨hb, rfl⟩ | ⟨x, hx, hg, rfl⟩
    · simp only [AccessContext.bypasses, accessContext, ht, Bool.not_true, Bool.or_false] at hb
      exact .inl hb
    · right
      intro b hlo hhi
      simp only [Mapping.grants, accessContext, hu, Bool.false_or, Bool.and_eq_true] at hg
      refine userReaches_iff.mpr
        ⟨x, hx, ⟨k, hk, hg.1⟩, ?_, x.div_pageSize_of_aligned ha hlo hhi⟩
      simpa only [Mapping.opensTo, accessContext, Bool.and_eq_true] using hg.2
  · simp at h

/-- Settings, controls, status bits and contents of the translation buffer are the same, and while
addresses are translated only bytes that user mode may write differ. -/
structure ConfinedTo (m n : Machine δ) : Prop where
  settings : n.settings = m.settings
  controls : n.registers.controls = m.registers.controls
  status : n.registers.status.status = m.registers.status.status
  contents : n.tlb.contents = m.tlb.contents
  bytes : m.registers.status.translates = true →
    ∀ b, n.memory.physical.byte b ≠ m.memory.physical.byte b → m.UserReaches [.write] b

namespace ConfinedTo

theorem translates (h : m.ConfinedTo n) :
    n.registers.status.translates = m.registers.status.translates := by
  rw [StatusWord.translates, StatusWord.translates, h.status]

theorem privileged (h : m.ConfinedTo n) :
    n.registers.status.privileged = m.registers.status.privileged := by
  rw [StatusWord.privileged, StatusWord.privileged, h.status]

theorem refl (m : Machine δ) : m.ConfinedTo m := ⟨rfl, rfl, rfl, rfl, fun _ _ h => absurd rfl h⟩

theorem trans (h : m.ConfinedTo n) (h' : n.ConfinedTo l) : m.ConfinedTo l where
  settings := h'.settings.trans h.settings
  controls := h'.controls.trans h.controls
  status := h'.status.trans h.status
  contents := h'.contents.trans h.contents
  bytes ht b hb := by
    by_cases hn : n.memory.physical.byte b = m.memory.physical.byte b
    · rw [← userReaches_congr (protectionIds_congr h.controls) h.contents]
      exact h'.bytes (h.translates.trans ht) b (hn ▸ hb)
    · exact h.bytes ht b hn

end ConfinedTo

theorem Confines.confinedTo [Device δ] (hu : m.registers.status.privileged = false)
    (h : m.Confines n) : m.ConfinedTo n where
  settings := h.settings
  controls := h.controls
  status := by rw [h.status]
  contents := h.contents
  bytes ht b hb := by
    rcases h.physical with hp | ⟨a, w, p, v, reply, hp, hw, hr⟩
    · rw [hp] at hb
      exact absurd rfl hb
    · rw [hr, Memory.byte_write hw] at hb
      split at hb
      · rename_i hc
        rcases place_user (List.mem_singleton.mpr rfl) hu ht hp with hi | hwr
        · simp [hi] at hc
        · exact hwr b hc.2.1 hc.2.2
      · exact absurd rfl hb

end Machine

variable [Device δ] {s s' : Session δ}

theorem Exec.confinedTo_of_instructionAt {ia : BitVec 52} {flow : Flow}
    (hu : s.machine.registers.status.privileged = false)
    (h : instructionAt ia s = .ok flow s') :
    (flow = .next ∨ ∃ t, flow = .branch t) ∧ s.machine.ConfinedTo s'.machine := by
  obtain ⟨word, i, s₁, s₂, hf, -, -, hi, hp, hs'⟩ := instructionAt_ok h
  obtain ⟨_, reply, -, hr, -, hs₁⟩ := fetch_ok hf
  obtain ⟨hflow, hc⟩ := perform_unprivileged (hi hu) hp
  have hfetch : s.machine.ConfinedTo
      { s₁.machine with registers := { s₁.machine.registers with instruction := word } } := by
    rw [hs₁]
    exact ⟨rfl, rfl, rfl, Machine.contents_place _ _ _ _,
      fun _ b hb => absurd (by rw [Memory.physical_read hr]) hb⟩
  have hperform := hfetch.trans (hc.confinedTo (hfetch.privileged.trans hu))
  rw [hs']
  exact ⟨hflow, hperform.settings, hperform.controls, hperform.status, hperform.contents,
    hperform.bytes⟩

namespace Session

theorem confinedTo_of_cycle (hu : s.machine.registers.status.privileged = false)
    (h : s.trap? = none) : s.machine.ConfinedTo s.cycle.2.machine := by
  obtain ⟨flow, s₁, he, hc⟩ := cycle_of_no_trap h
  obtain ⟨hflow, h₁⟩ := Exec.confinedTo_of_instructionAt (s := s.begun) hu he
  rw [hc, machine_retire]
  refine ⟨h₁.settings, h₁.controls, ?_, h₁.contents, h₁.bytes⟩
  rcases hflow with rfl | ⟨t, rfl⟩ <;> exact h₁.status

/-- The instructions that complete one after another, and how many they are. -/
inductive Retires : Nat → Session δ → Session δ → Prop where
  | none (s : Session δ) : Retires 0 s s
  | next {n : Nat} {s s' : Session δ} (h : Retires n s s') (ht : s'.trap? = .none) :
    Retires (n + 1) s s'.cycle.2

/-- Code in user mode is confined, and is still in user mode, after any number of instructions
without a trap. -/
theorem Retires.confined {n : Nat} (hu : s.machine.registers.status.privileged = false)
    (h : Retires n s s') :
    s.machine.ConfinedTo s'.machine ∧ s'.machine.registers.status.privileged = false := by
  induction h with
  | none s => exact ⟨.refl _, hu⟩
  | next _ ht ih =>
    obtain ⟨hc, hp⟩ := ih hu
    have hstep := confinedTo_of_cycle hp ht
    exact ⟨hc.trans hstep, hstep.privileged.trans hp⟩

/-- A machine in user mode whose only page holds a program that sets a register and stores it. -/
def ofUser : Session Empty where
  machine := {
    settings := {}
    registers := { Registers.cleared with status := ⟨4, 0⟩ }
    tlb := ⟨[⟨true, ⟨0, 0, 0xF, 0⟩, 0⟩], 0, 0, 0⟩
    memory := ⟨(ByteStore.zeros 0x8000).withProgram 0
      [InstructionWord.pack 0 10 1 0 0 0xAB, InstructionWord.pack 1 9 1 0 0 0x100], .create 0⟩
    state := .running
    lastTrap := none
    counters := {}
    handlerEntry := none }
  log := #[]

theorem ofUser_confined : Retires 2 ofUser ofUser.cycle.2.cycle.2 ∧
    ofUser.cycle.2.cycle.2.machine.memory.physical.byte 0x100 = 0xAB ∧
    ofUser.machine.ConfinedTo ofUser.cycle.2.cycle.2.machine ∧
    ofUser.cycle.2.cycle.2.machine.registers.status.privileged = false :=
  have h : Retires 2 ofUser ofUser.cycle.2.cycle.2 :=
    .next (.next (.none ofUser) (by decide)) (by decide)
  ⟨h, by decide, Retires.confined (by decide) h⟩

end Session

end Processor64
