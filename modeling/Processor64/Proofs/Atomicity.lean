import Processor64.Proofs.Reservations

/-!
# Atomic updates

A conditional store that reports success uses up the reservation of the last load with reserve,
and what that load covered has not been stored to in between (`Reached.updates_what_was_read`). So
a conditional store no wider than its load overwrites nothing that the load has not seen. A wider
one does: it only needs the address of the reservation, and a store beside the reserved bytes leaves
that (`ofNarrowLoad_overwrites`).
-/

namespace Processor64

variable {δ : Type}

namespace ReservationEvent

/-- Whether the event is a store to the byte at `b`. -/
def setsByte (e : ReservationEvent) (b : Nat) : Prop :=
  match e with
  | stored q w => q.toNat ≤ b ∧ b < q.toNat + w.bytes
  | _ => False

variable {e : ReservationEvent} {p q : Word} {w v : Width} {b : Nat}

theorem ne_reserved_of_breaks (h : e.breaks p w = false) : e ≠ reserved q v := by
  rintro rfl
  simp [breaks] at h

/-- What leaves a reservation has set none of its bytes. -/
theorem not_setsByte_of_breaks (h : e.breaks p w = false) (hlo : p.toNat ≤ b)
    (hhi : b < p.toNat + w.bytes) : ¬ e.setsByte b := by
  intro hb
  cases e with
  | stored q v =>
    obtain ⟨hq, hv⟩ : q.toNat ≤ b ∧ b < q.toNat + v.bytes := hb
    have hmeets : (stored q v).breaks p w = true := by
      rw [breaks, Bool.and_eq_true, decide_eq_true_eq, decide_eq_true_eq]
      omega
    rw [hmeets] at h
    contradiction
  | _ => exact hb

end ReservationEvent

namespace Session

variable [Device δ] {s : Session δ}

/-- A conditional store that reports success has found a reservation at its place. -/
theorem StoresIf.of_reports {s₁ : Session δ} {p : Word} {w : Width} {r : Register} {o : Prop}
    (h : s.StoresIf s₁ p w r o) (hone : s.cycle.2.machine.registers.general r = 1) : o := by
  by_contra hn
  obtain ⟨-, -, hg⟩ := h.fails hn
  have hzero : s.cycle.2.machine.registers.general r = 0 := by
    unfold Registers.general
    split
    · rfl
    · rename_i hr
      rw [hg, Registers.setGeneral, if_neg hr]
      exact Vector.getElem_set_self _
  rw [hzero] at hone
  exact absurd hone (by decide)

/-- The next cycle, which has fetched its instruction in `s₁`, stores `w` bytes of `r` at `p` where
the last load with reserve, of `v` bytes, was made before the events `since`. It uses up the
reservation of that load, memory is what it replies to the write of these bytes and changes nowhere
else, and no event since the load is a store to a byte that the load reserved and the cycle
overwrites: to none that it overwrites, if the store is no wider than the load. -/
structure Updates (h : List ReservationEvent) (s s₁ : Session δ) (p : Word) (w v : Width)
    (r : Register) (since : List ReservationEvent) : Prop where
  history : ∃ before, h = before ++ .reserved p v :: since
  last : ∀ e ∈ since, ∀ q u, e ≠ .reserved q u
  reservation : ∃ seen, s.machine.registers.reservation = some ⟨p, v.bytes, seen⟩ ∧
    (p.inIoWindow = false → s.machine.memory.physical.read p v false = .ok seen)
  consumed : s.cycle.2.machine.registers.reservation = none
  stored : ∃ reply, s₁.machine.memory.write p w (s.machine.registers.general r) = .ok reply ∧
    s.cycle.2.machine.memory = reply.after
  overwrites : ∀ b,
    s.cycle.2.machine.memory.physical.byte b ≠ s.machine.memory.physical.byte b →
      p.toNat ≤ b ∧ b < p.toNat + w.bytes
  overwritesIo : ∀ b,
    s.cycle.2.machine.memory.io.backing.byte b ≠ s.machine.memory.io.backing.byte b →
      p.toNat ≤ ioStart + b ∧ ioStart + b < p.toNat + w.bytes
  unreached : p.inIoWindow = false → s.cycle.2.machine.memory.io = s₁.machine.memory.io
  unset : ∀ e ∈ since, ∀ b, p.toNat ≤ b → b < p.toNat + min w.bytes v.bytes → ¬ e.setsByte b
  seen : w.bytes ≤ v.bytes →
    ∀ e ∈ since, ∀ b, p.toNat ≤ b → b < p.toNat + w.bytes → ¬ e.setsByte b

/-- A conditional store that reports success uses up the reservation of the last load with reserve,
which was made at its own place, and of the bytes that it overwrites those which that load reserved
have not been stored to since then: all of them, if the store is no wider than the load. -/
theorem Reached.updates_what_was_read {h : List ReservationEvent} (hr : Reached h s)
    {s₁ : Session δ} {p : Word} {w : Width} {r : Register} {x : MemoryOperand}
    (hf : s.fetched? = some (.storeConditional w r x, s₁))
    (hp : (s₁.machine.place (x.address s₁.machine.registers) w .write).1 = .ok p)
    (ht : s.trap? = none) (hone : s.cycle.2.machine.registers.general r = 1) :
    ∃ v since, Updates h s s₁ p w v r since := by
  have hstores := storesIf hf hp
  have hany : s.machine.registers.reservation.any (·.address == p) = true :=
    hstores.of_reports hone
  have hholds := hr.holds.1
  obtain ⟨v, ho⟩ := hholds.any_iff.mp hany
  obtain ⟨before, since, hh, hkeep⟩ := ReservationEvent.outstanding_eq_some.mp ho
  obtain ⟨hstored, hphysical, hbacking, -⟩ := hstores.stores hany ht
  have hunset : ∀ e ∈ since, ∀ b, p.toNat ≤ b → b < p.toNat + v.bytes → ¬ e.setsByte b :=
    fun e he b => ReservationEvent.not_setsByte_of_breaks (hkeep e he)
  refine ⟨v, since, {
    history := ⟨before, hh⟩
    last := fun e he q u => ReservationEvent.ne_reserved_of_breaks (hkeep e he)
    reservation := ?_
    consumed := hstores.reservation
    stored := hstored
    overwrites := fun b hb => ?_
    overwritesIo := fun b hb => ?_
    unreached := fun hp => ?_
    unset := fun e he b hlo hhi => hunset e he b hlo (by omega)
    seen := fun hle e he b hlo hhi => hunset e he b hlo (by omega) }⟩
  · rw [ho] at hholds
    cases hholds with
    | some hres _ hvalue => exact ⟨_, hres, hvalue⟩
  · rw [hphysical b] at hb
    exact (ite_ne_right_iff.mp hb).1.2
  · rw [hbacking b] at hb
    exact (ite_ne_right_iff.mp hb).1.2.2
  · obtain ⟨reply, hw, hafter⟩ := hstored
    rcases Memory.write_eq_ok hw with ⟨hin, -⟩ | ⟨-, -, hio, -⟩
    · rw [hp] at hin
      cases hin
    · rw [hafter, hio]

theorem ofPair_updates_what_was_read :
    Reached [.reset, .reserved 0x100 .double] ofPair.cycle.2 ∧
      ofPair.cycle.2.trap? = none ∧ ofPair.cycle.2.cycle.2.machine.registers.general 1 = 1 ∧
      ∃ s₁ v since,
        Updates [.reset, .reserved 0x100 .double] ofPair.cycle.2 s₁ 0x100 .double v 1 since := by
  have hcreate : create {} = .ok (⟨.create {}, _⟩ : Session Empty) := rfl
  have hstart : Reached [.reset] ofPair := .start hcreate rfl
  have hr : Reached [.reset, .reserved 0x100 .double] ofPair.cycle.2 := hstart.cycle rfl
  have hf : ofPair.cycle.2.fetched? = some (.storeConditional .double 1 (.displaced 0 0x100), _) :=
    rfl
  have ht : ofPair.cycle.2.trap? = none := rfl
  have hone : ofPair.cycle.2.cycle.2.machine.registers.general 1 = 1 := rfl
  exact ⟨hr, ht, hone, _, hr.updates_what_was_read hf rfl ht hone⟩

/-- A default machine at a load with reserve of a byte that is followed by a conditional store of
eight bytes at the same place. -/
def ofNarrowLoad : Session Empty :=
  (perform ⟨{ Machine.create {} with
      memory.physical := (ByteStore.zeros 0x100000).withProgram 0
        [InstructionWord.pack 1 10 1 0 0 0x0100, InstructionWord.pack 1 11 1 0 0 0x6100] },
    #[]⟩ .reset).2

/-- Once the load has reserved its byte, the host stores to the byte after that. -/
def ofNarrowLoadStored : Session Empty :=
  (ofNarrowLoad.cycle.2.perform (.hostStore 0x101 .byte 0xAA)).2

/-- The conditional store reports success and overwrites the byte that was stored to after the
load. -/
theorem ofNarrowLoad_overwrites :
    Reached ([.reset] ++ .reserved 0x100 .byte :: [.stored 0x101 .byte]) ofNarrowLoadStored ∧
      (∃ s₁, ofNarrowLoadStored.fetched? =
          some (.storeConditional .double 1 (.displaced 0 0x100), s₁) ∧
        (s₁.machine.place (MemoryOperand.address (.displaced 0 0x100) s₁.machine.registers)
          .double .write).1 = .ok 0x100) ∧
      ofNarrowLoadStored.trap? = none ∧
      ofNarrowLoadStored.cycle.2.machine.registers.general 1 = 1 ∧
      (0x100 : Word).inIoWindow = false ∧
      ((0x100 : Word).toNat ≤ 0x101 ∧ 0x101 < (0x100 : Word).toNat + Width.double.bytes) ∧
      (ReservationEvent.stored 0x101 .byte).setsByte 0x101 ∧
      ofNarrowLoadStored.machine.memory.physical.byte 0x101 = 0xAA ∧
      ofNarrowLoadStored.cycle.2.machine.memory.physical.byte 0x101 = 0 := by
  have hcreate : create {} = .ok (⟨.create {}, _⟩ : Session Empty) := rfl
  have hstart : Reached [.reset] ofNarrowLoad := .start hcreate rfl
  have hload : Reached [.reset, .reserved 0x100 .byte] ofNarrowLoad.cycle.2 := hstart.cycle rfl
  have hstored : Reached [.reset, .reserved 0x100 .byte, .stored 0x101 .byte]
      ofNarrowLoadStored := hload.hostStore 0x101 .byte 0xAA
  refine ⟨hstored, ⟨_, rfl, rfl⟩, rfl, rfl, rfl, ⟨by decide, by decide⟩,
    ⟨by decide, by decide⟩, rfl, rfl⟩

end Session

end Processor64
