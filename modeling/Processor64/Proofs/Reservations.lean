import Processor64.Proofs.Ending

/-!
# Reservations

What a run has done to reservations is a list of events (`ReservationEvent`), and the list tells
which reservation is left: that of the last load with reserve, unless one of the events since then
breaks it (`outstanding_eq_some`). The register of a machine agrees with its list through every
cycle and every request of the host (`Machine.Holds`), and the bytes it covers in physical memory
still read as they did when they were reserved.
-/

namespace Processor64

variable {δ : Type}

/-- What can happen to a reservation. -/
inductive ReservationEvent where
  | reset
  | trapped
  | reserved (p : Word) (w : Width)
  /-- A conditional store that found its place. -/
  | conditional
  | stored (p : Word) (w : Width)
  deriving DecidableEq

namespace ReservationEvent

/-- Whether a reservation at `p` is gone after the event. Only a store beside it leaves it. -/
def breaks (e : ReservationEvent) (p : Word) (w : Width) : Bool :=
  match e with
  | stored q v => q.toNat < p.toNat + w.bytes && p.toNat < q.toNat + v.bytes
  | _ => true

/-- The reservation after an event. -/
def after (r : Option (Word × Width)) (e : ReservationEvent) : Option (Word × Width) :=
  match e with
  | reserved p w => some (p, w)
  | stored q v => r.filter fun (p, w) => !(stored q v).breaks p w
  | _ => none

/-- The reservation that a history leaves. -/
def outstanding (h : List ReservationEvent) : Option (Word × Width) := h.foldl after none

/-- The last load with reserve was at `p`, and nothing since then has broken its reservation. -/
def Outstanding (h : List ReservationEvent) (p : Word) (w : Width) : Prop :=
  ∃ before since, h = before ++ reserved p w :: since ∧ ∀ e ∈ since, e.breaks p w = false

variable {h : List ReservationEvent} {e : ReservationEvent} {p : Word} {w : Width}

theorem after_eq_some {o : Option (Word × Width)} : after o e = some (p, w) ↔
    o = some (p, w) ∧ e.breaks p w = false ∨ e = reserved p w := by
  cases e
  case reserved q v =>
    simp [after, breaks, and_comm, eq_comm]
  case stored q v =>
    simp only [after, Option.filter_eq_some_iff, Bool.not_eq_true', reduceCtorEq, or_false]
  all_goals
    simp [after, breaks]

/-- A reservation is outstanding if nothing after it breaks it. -/
theorem outstanding_cons : Outstanding (e :: h) p w ↔
    e = reserved p w ∧ (∀ d ∈ h, d.breaks p w = false) ∨ Outstanding h p w := by
  constructor
  · rintro ⟨before, since, heq, hs⟩
    rcases List.cons_eq_append_iff.mp heq with ⟨rfl, hc⟩ | ⟨before', rfl, rfl⟩
    · obtain ⟨rfl, rfl⟩ := List.cons.inj hc
      exact .inl ⟨rfl, hs⟩
    · exact .inr ⟨before', since, rfl, hs⟩
  · rintro (⟨rfl, hs⟩ | ⟨before, since, rfl, hs⟩)
    · exact ⟨[], h, rfl, hs⟩
    · exact ⟨e :: before, since, rfl, hs⟩

theorem foldl_after_eq_some : ∀ {h : List ReservationEvent} {o : Option (Word × Width)},
    h.foldl after o = some (p, w) ↔
      o = some (p, w) ∧ (∀ e ∈ h, e.breaks p w = false) ∨ Outstanding h p w
  | [], o => by simp [Outstanding]
  | e :: h, o => by
    rw [List.foldl_cons, foldl_after_eq_some, after_eq_some, outstanding_cons, or_and_right,
      List.forall_mem_cons, and_assoc, or_assoc]

/-- The recursion over a history finds the reservation that is outstanding. -/
theorem outstanding_eq_some : outstanding h = some (p, w) ↔ Outstanding h p w := by
  simp [outstanding, foldl_after_eq_some]

/-- What happens later acts on what was outstanding before. -/
theorem outstanding_append (h d : List ReservationEvent) :
    outstanding (h ++ d) = d.foldl after (outstanding h) :=
  List.foldl_append

end ReservationEvent

/-- A store meets a reservation if they share a byte. -/
theorem Reservation.meets_iff {r : Reservation} {q : Word} {n : Nat}
    (hr : r.address.toNat + r.length < 2 ^ 64) (hq : q.toNat + n < 2 ^ 64) :
    r.meets q n = true ↔
      q.toNat < r.address.toNat + r.length ∧ r.address.toNat < q.toNat + n := by
  simp only [meets, Bool.and_eq_true, BitVec.ult, decide_eq_true_eq, BitVec.toNat_add,
    BitVec.toNat_ofNat, Nat.add_mod_mod, Nat.mod_eq_of_lt hr, Nat.mod_eq_of_lt hq]

/-- The register holds the reservation, and where that covers physical memory its bytes read as
its value says. -/
inductive Machine.Holds (m : Machine δ) : Option (Word × Width) → Prop where
  | none (h : m.registers.reservation = .none) : m.Holds .none
  | some {p v : Word} {w : Width} (h : m.registers.reservation = .some ⟨p, w.bytes, v⟩)
    (bound : p.toNat + w.bytes < 2 ^ 64)
    (value : p.inIoWindow = false → m.memory.physical.read p w false = .ok v) :
    m.Holds (.some (p, w))

namespace Machine.Holds

open ReservationEvent

variable {m n : Machine δ} {o : Option (Word × Width)} {p v : Word} {w : Width}

theorem congr (h : m.Holds o) (hr : n.registers.reservation = m.registers.reservation)
    (hp : n.memory.physical = m.memory.physical) : n.Holds o := by
  cases h with
  | none h => exact .none (hr.trans h)
  | some h bound value => exact .some (hr.trans h) bound (by rwa [hp])

theorem any_iff (h : m.Holds o) :
    m.registers.reservation.any (·.address == p) = true ↔ ∃ w, o = .some (p, w) := by
  cases h with
  | none h => simp [h]
  | some h => simp [h]

/-- A store breaks the reservation if it meets its bytes, and leaves them otherwise. -/
theorem stored [Device δ] {reply : Reply (Memory δ) Unit} (h : m.Holds o)
    (hm : m.memory.physical.size ≤ ioStart) (hw : m.memory.write p w v = .ok reply)
    (hr : n.registers.reservation = (m.registers.noteStore p w.bytes).reservation)
    (hp : n.memory.physical = reply.after.physical) : n.Holds (after o (.stored p w)) := by
  cases h with
  | none h =>
    refine .none ?_
    rw [hr, Registers.noteStore_of_none h]
    exact h
  | @some q u x h bound value =>
    have hpw : p.toNat + w.bytes < 2 ^ 64 := Nat.lt_trans (Memory.lt_of_write hm hw) (by decide)
    have hmeets := Reservation.meets_iff (r := ⟨q, x.bytes, u⟩) bound hpw
    rw [Registers.noteStore_of_some h] at hr
    by_cases hb : p.toNat < q.toNat + x.bytes ∧ q.toNat < p.toNat + w.bytes
    · rw [if_pos (hmeets.mpr hb)] at hr
      have ha : after (.some (q, x)) (.stored p w) = .none := by
        simp [after, breaks, hb]
      rw [ha]
      exact .none hr
    · rw [if_neg (fun hx => hb (hmeets.mp hx))] at hr
      have ha : after (.some (q, x)) (.stored p w) = .some (q, x) := by
        simp only [after, Option.filter_eq_some_iff, true_and, breaks]
        rw [Bool.not_eq_true', ← Bool.not_eq_true, Bool.and_eq_true, decide_eq_true_eq,
          decide_eq_true_eq]
        exact hb
      rw [ha]
      refine .some (hr.trans h) bound fun hq => ?_
      rw [hp, ← value hq]
      refine ByteStore.read_congr (Memory.size_write hw) (fun b hlo hhi => ?_) false
      rw [Memory.byte_write hw, if_neg]
      omega

end Machine.Holds

/-- What an instruction that completes means for reservations. -/
def Instruction.reservationEvents (m : Machine δ) : Instruction → List ReservationEvent
  | loadReserve w _ x =>
    match (m.place (x.address m.registers) w .read).1 with
    | .ok p => [.reserved p w]
    | .error _ => []
  | store w _ x =>
    match (m.place (x.address m.registers) w .write).1 with
    | .ok p => [.stored p w]
    | .error _ => []
  | storeConditional .. => [.conditional]
  | _ => []

variable [Device δ] {s s' : Session δ} {o : Option (Word × Width)}

theorem Exec.holds_of_perform {word : InstructionWord} {ia : BitVec 52} {i : Instruction}
    {flow : Flow} (h : s.machine.Holds o) (hm : s.machine.memory.physical.size ≤ ioStart)
    (hp : perform word ia i s = .ok flow s') :
    s'.machine.Holds ((i.reservationEvents s.machine).foldl ReservationEvent.after o) ∧
      s'.machine.memory.physical.size = s.machine.memory.physical.size := by
  rcases hr : i.read? with _ | ⟨w, r, x⟩
  · rcases ha : i.isAccess with _ | _
    · have he : i.reservationEvents s.machine = [] := by cases i <;> first | rfl | cases ha
      rw [he]
      rcases hi : i.isPrivileged with _ | _
      · obtain ⟨f, -, hf⟩ := perform_calculation (δ := δ) word ia ha hi
        rw [hf] at hp
        split at hp
        · obtain ⟨rfl, rfl⟩ := EStateM.Result.ok.inj hp
          exact ⟨h.congr (Registers.reservation_setGeneral _ _ _) rfl, rfl⟩
        · simp at hp
      · obtain ⟨hmem, hres, -⟩ := perform_privileged hi hp
        exact ⟨h.congr hres (by rw [hmem]), by rw [hmem]⟩
    · cases i <;> cases ha <;> cases hr
      case store.refl.refl w r x =>
        obtain ⟨p, reply, hpl, hw, rfl, hs⟩ := perform_store hp
        rw [hs, Instruction.reservationEvents, hpl]
        exact ⟨h.stored hm hw rfl rfl, Memory.size_write hw⟩
      case loadReserve.refl.refl w r x =>
        obtain ⟨p, reply, hpl, hl, rfl, hs⟩ := perform_loadReserve hp
        rw [hs, Instruction.reservationEvents, hpl]
        refine ⟨.some (v := reply.value) ?_ ?_ fun hio => ?_, ?_⟩
        · rw [Registers.reservation_setGeneral]
          rfl
        · exact Nat.lt_trans (Memory.lt_of_read hm hl) (by decide)
        · obtain ⟨hv, hafter⟩ := Memory.read_eq_ok hio hl
          exact (congrArg (fun m : Memory δ => m.physical.read p w false) hafter).trans hv
        · rw [Memory.physical_read hl]
      case storeConditional.refl.refl w r x =>
        obtain ⟨p, -, rfl, ⟨-, reply, hw, hs⟩ | ⟨-, hs⟩⟩ := perform_storeConditional_ok hp
        · rw [hs]
          exact ⟨.none (Registers.reservation_setGeneral _ _ _), Memory.size_write hw⟩
        · rw [hs]
          exact ⟨.none (Registers.reservation_setGeneral _ _ _), rfl⟩
  · have he : i.reservationEvents s.machine = [] := by cases i <;> first | rfl | cases hr
    obtain ⟨p, signed, reply, v, -, hl, rfl, hs⟩ := perform_read hr hp
    rw [he, hs]
    exact ⟨h.congr (Registers.reservation_setGeneral _ _ _) (Memory.physical_read hl),
      by rw [Memory.physical_read hl]⟩

namespace Session

/-- The instruction of the next cycle, and the session that has fetched it. -/
def fetched? (s : Session δ) : Option (Instruction × Session δ) :=
  match Exec.fetch s.machine.registers.status.location s.begun with
  | .ok word s₁ => (Instruction.ofWord? word).map (·, s₁)
  | .error _ _ => none

/-- What the next cycle means for reservations. -/
def cycleEvents (s : Session δ) : List ReservationEvent :=
  match s.trap?, s.fetched? with
  | some _, _ => [.trapped]
  | none, some (i, s₁) => i.reservationEvents s₁.machine
  | none, none => []

/-- The cycle does to the reservation what its events say. -/
theorem holds_of_cycle (h : s.machine.Holds o) (hm : s.machine.memory.physical.size ≤ ioStart) :
    s.cycle.2.machine.Holds (s.cycleEvents.foldl ReservationEvent.after o) ∧
      s.cycle.2.machine.memory.physical.size = s.machine.memory.physical.size := by
  rcases ht : s.trap? with _ | t
  · obtain ⟨flow, s₃, he, hc⟩ := cycle_of_no_trap ht
    obtain ⟨word, i, s₁, s₂, hf, hi, -, -, hp, hs₃⟩ := Exec.instructionAt_ok he
    obtain ⟨_, _, -, hr, -, hs₁⟩ := Exec.fetch_ok hf
    have he : s.cycleEvents = i.reservationEvents s₁.machine := by
      simp only [cycleEvents, ht, fetched?, StatusWord.location, hf, hi, Option.map_some]
    have hphysical : s₁.machine.memory.physical = s.machine.memory.physical := by
      rw [hs₁]
      exact Memory.physical_read hr
    have h₁ : s₁.machine.Holds o := h.congr (by rw [hs₁]; rfl) hphysical
    obtain ⟨h₂, hsize⟩ := Exec.holds_of_perform
      (s := s₁.withRegisters { s₁.machine.registers with instruction := word })
      (h₁.congr rfl rfl) (by rwa [Session.machine_withRegisters, hphysical]) hp
    rw [hc, machine_retire, he, hs₃]
    exact ⟨h₂.congr rfl rfl, hsize.trans (congrArg (·.size) hphysical)⟩
  · obtain ⟨s₁, he, hc⟩ := cycle_of_trap ht
    have hk := Exec.keeps_of_instructionAt_error he
    have he : s.cycleEvents = [.trapped] := by simp only [cycleEvents, ht]
    rw [he, hc]
    rcases takeTrap_cases s₁ t s.machine.registers.status.address with
      ⟨_, _, -, -, -, -, hm⟩ | ⟨-, hm⟩ <;> rw [hm] <;>
      exact ⟨.none rfl, congrArg (·.size) hk.physical⟩

theorem perform_resume (s : Session δ) :
    (s.perform .resume).2.machine.registers.reservation = s.machine.registers.reservation ∧
      (s.perform .resume).2.machine.memory = s.machine.memory := by
  have h : (s.perform .resume).2 = s.resume.2 := by
    rcases h : s.resume with ⟨_ | _, _⟩ <;> simp only [perform, h]
  rw [h]
  unfold resume
  split <;> exact ⟨rfl, rfl⟩

theorem perform_setGeneral (s : Session δ) (n v : Word) :
    (s.perform (.setGeneral n v)).2.machine.registers.reservation =
        s.machine.registers.reservation ∧
      (s.perform (.setGeneral n v)).2.machine.memory = s.machine.memory := by
  rcases h : s.machine.registers.setGeneralAt n v with t | r <;> simp only [perform, h]
  · simp
  · unfold Registers.setGeneralAt at h
    split at h
    · obtain rfl := Except.ok.inj h
      exact ⟨Registers.reservation_setGeneral _ _ _, rfl⟩
    · simp at h

theorem perform_setControl (s : Session δ) (n : BitVec 32) (v : Word) :
    (s.perform (.setControl n v)).2.machine.registers.reservation =
        s.machine.registers.reservation ∧
      (s.perform (.setControl n v)).2.machine.memory = s.machine.memory := by
  rcases h : s.machine.registers.setControlAt n v with t | r <;> simp only [perform, h]
  · simp
  · unfold Registers.setControlAt at h
    split at h
    · obtain rfl := Except.ok.inj h
      exact ⟨rfl, rfl⟩
    · simp at h

/-- The sessions that come about from a reset of a machine by cycles and by requests of the host
that do not write memory but for its stores, each with what has happened to reservations. -/
inductive Reached : List ReservationEvent → Session δ → Prop where
  | start {c : Config} {s₀ s : Session δ} (hc : create c = .ok s₀)
    (hs : s.machine.memory.physical.size = s₀.machine.memory.physical.size) :
    Reached [.reset] (s.perform .reset).2
  | cycle {h : List ReservationEvent} {s : Session δ} (hr : Reached h s)
    (hs : s.machine.state = .running) : Reached (h ++ s.cycleEvents) s.cycle.2
  | reset {h : List ReservationEvent} {s : Session δ} (hr : Reached h s) :
    Reached (h ++ [.reset]) (s.perform .reset).2
  | hostStore {h : List ReservationEvent} {s : Session δ} (hr : Reached h s) (p : Word) (w : Width)
    (v : Word) :
    Reached (h ++ if (s.perform (.hostStore p w v)).1 = .done then [.stored p w] else [])
      (s.perform (.hostStore p w v)).2
  | resume {h : List ReservationEvent} {s : Session δ} (hr : Reached h s) :
    Reached h (s.perform .resume).2
  | setGeneral {h : List ReservationEvent} {s : Session δ} (hr : Reached h s) (n v : Word) :
    Reached h (s.perform (.setGeneral n v)).2
  | setControl {h : List ReservationEvent} {s : Session δ} (hr : Reached h s) (n : BitVec 32)
    (v : Word) : Reached h (s.perform (.setControl n v)).2
  | setProgramAddress {h : List ReservationEvent} {s : Session δ} (hr : Reached h s) (a : Word) :
    Reached h (s.perform (.setProgramAddress a)).2

/-- Physical memory ends before the window begins. -/
theorem size_create {c : Config} (h : create c = .ok s) :
    s.machine.memory.physical.size ≤ ioStart := by
  obtain ⟨hc, hm⟩ := create_eq_ok h
  rw [hm]
  exact (Config.fits_of_fault? hc).physicalSize

/-- The register always holds the reservation that is outstanding. -/
theorem Reached.holds {h : List ReservationEvent} (hr : Reached h s) :
    s.machine.Holds (ReservationEvent.outstanding h) ∧
      s.machine.memory.physical.size ≤ ioStart := by
  induction hr with
  | start hc hs => exact ⟨.none rfl, hs ▸ size_create hc⟩
  | cycle _ _ ih =>
    rw [ReservationEvent.outstanding_append]
    obtain ⟨hh, hsize⟩ := holds_of_cycle ih.1 ih.2
    exact ⟨hh, hsize ▸ ih.2⟩
  | reset _ ih =>
    rw [ReservationEvent.outstanding_append]
    exact ⟨.none rfl, ih.2⟩
  | @hostStore _ s _ p w v ih =>
    rw [ReservationEvent.outstanding_append, perform, answer]
    rcases hx : Exec.hostStore p w v s with ⟨_, s'⟩ | ⟨t, s'⟩
    · obtain ⟨reply, hw, hs'⟩ := Exec.hostStore_ok hx
      dsimp only
      rw [if_pos rfl, hs']
      exact ⟨ih.1.stored ih.2 hw rfl rfl, Nat.le_trans (Nat.le_of_eq (Memory.size_write hw)) ih.2⟩
    · rw [Exec.hostStore_error hx]
      exact ih
  | resume _ ih =>
    obtain ⟨hr, hm⟩ := perform_resume (δ := δ) _
    exact ⟨ih.1.congr hr (by rw [hm]), by rw [hm]; exact ih.2⟩
  | setGeneral _ n v ih =>
    obtain ⟨hr, hm⟩ := perform_setGeneral (δ := δ) _ n v
    exact ⟨ih.1.congr hr (by rw [hm]), by rw [hm]; exact ih.2⟩
  | setControl _ n v ih =>
    obtain ⟨hr, hm⟩ := perform_setControl (δ := δ) _ n v
    exact ⟨ih.1.congr hr (by rw [hm]), by rw [hm]; exact ih.2⟩
  | setProgramAddress _ a ih => exact ⟨ih.1.congr rfl rfl, ih.2⟩

/-- A run of cycles is among what is reached. -/
theorem Reached.cycles {h : List ReservationEvent} (hr : Reached h s)
    (hs : s.machine.state = .running) (n : Nat) : ∃ d, Reached (h ++ d) (s.cycles n).2 := by
  induction n generalizing h s with
  | zero => exact ⟨[], by rwa [List.append_nil]⟩
  | succ n ih =>
    have hc := hr.cycle hs
    have hstate : s.cycle.1 = none → s.cycle.2.machine.state = .running :=
      fun hn => (state_cycle hn).trans hs
    rw [Session.cycles]
    rcases hx : s.cycle with ⟨_ | r, s'⟩ <;> rw [hx] at hc hstate
    · obtain ⟨d, hd⟩ := ih hc (hstate rfl)
      exact ⟨_, by rwa [← List.append_assoc]⟩
    · exact ⟨_, hc⟩

/-- What the next cycle does if it is a conditional store of a register at `p`, fetched in `s₁`:
it stores if a reservation is outstanding and says so in the register, and uses the reservation up
either way. A store is what memory replies to a write: it sets the bytes that it covers and no
others, of physical memory or, unless a device has them, of the store of the I/O window. -/
structure StoresIf (s s₁ : Session δ) (p : Word) (w : Width) (r : Register)
    (outstanding : Prop) : Prop where
  check : s.machine.registers.reservation.any (·.address == p) = true ↔ outstanding
  fails : ¬ outstanding → s.trap? = none ∧ s.cycle.2.machine.memory = s₁.machine.memory ∧
    s.cycle.2.machine.registers.generals = (s.machine.registers.setGeneral r 0).generals
  stores : outstanding → s.trap? = none →
    (∃ reply, s₁.machine.memory.write p w (s.machine.registers.general r) = .ok reply ∧
      s.cycle.2.machine.memory = reply.after) ∧
    (∀ b, s.cycle.2.machine.memory.physical.byte b =
      if p.inIoWindow = false ∧ p.toNat ≤ b ∧ b < p.toNat + w.bytes then
        (s.machine.registers.general r).byte (b - p.toNat)
      else s.machine.memory.physical.byte b) ∧
    (∀ b, s.cycle.2.machine.memory.io.backing.byte b =
      if p.inIoWindow = true ∧
        (∀ d ∈ s₁.machine.memory.io.devices, Device.covers d p w.bytes = false) ∧
        p.toNat ≤ ioStart + b ∧ ioStart + b < p.toNat + w.bytes then
        (s.machine.registers.general r).byte (ioStart + b - p.toNat)
      else s.machine.memory.io.backing.byte b) ∧
    s.cycle.2.machine.registers.generals = (s.machine.registers.setGeneral r 1).generals
  reservation : s.cycle.2.machine.registers.reservation = none

theorem fetched?_eq_some {i : Instruction} {s₁ : Session δ} (h : s.fetched? = some (i, s₁)) :
    ∃ word, Exec.fetch s.machine.registers.status.location s.begun = .ok word s₁ ∧
      Instruction.ofWord? word = some i := by
  unfold fetched? at h
  split at h
  · rename_i word s₂ hf
    simp only [Option.map_eq_some_iff, Prod.mk.injEq] at h
    obtain ⟨_, hi, rfl, rfl⟩ := h
    exact ⟨word, hf, hi⟩
  · simp at h

theorem storesIf {s₁ : Session δ} {p : Word} {w : Width} {r : Register} {x : MemoryOperand}
    (hf : s.fetched? = some (.storeConditional w r x, s₁))
    (hp : (s₁.machine.place (x.address s₁.machine.registers) w .write).1 = .ok p) :
    s.StoresIf s₁ p w r (s.machine.registers.reservation.any (·.address == p) = true) := by
  obtain ⟨word, hfetch, hi⟩ := fetched?_eq_some hf
  obtain ⟨_, _, -, hread, -, hs₁⟩ := Exec.fetch_ok hfetch
  have hregisters : s₁.machine.registers = s.machine.registers := by rw [hs₁]; rfl
  have hphysical : s₁.machine.memory.physical = s.machine.memory.physical := by
    rw [hs₁]
    exact Memory.physical_read hread
  have hbacking : s₁.machine.memory.io.backing = s.machine.memory.io.backing := by
    rw [hs₁]
    exact Memory.backing_read hread
  -- it completes, with a reservation or without one, or traps in its store
  rcases Exec.instructionAt_of_fetch hfetch hi rfl rfl with
    ⟨flow, s₂, s₃, hx, he, counters, hs₃⟩ | ⟨t, s₂, hx, he⟩
  · obtain ⟨ht, hc⟩ := cycle_of_ok he
    have hm := machine_retire s₃ s.machine.registers.status.address flow
    rw [← hc, hs₃] at hm
    obtain ⟨q, hq, -, ⟨hany, reply, hw, hs₂⟩ | ⟨hany, hs₂⟩⟩ := Exec.perform_storeConditional_ok hx
    · obtain rfl := Except.ok.inj (hp.symm.trans hq)
      rw [Session.machine_withRegisters, hregisters] at hany hw
      rw [hs₂] at hm
      refine ⟨Iff.rfl, fun h => absurd hany h,
        fun _ _ => ⟨⟨reply, hw, ?_⟩, fun b => ?_, fun b => ?_, ?_⟩, ?_⟩
      · rw [hm]
      · rw [hm, ← hphysical]
        exact Memory.byte_write hw b
      · rw [hm, ← hbacking]
        exact Memory.byte_backing_write hw b
      · rw [hm]
        exact Registers.generals_setGeneral_congr (congrArg (·.generals) hregisters) r 1
      · rw [hm]
        exact Registers.reservation_setGeneral _ _ _
    · obtain rfl := Except.ok.inj (hp.symm.trans hq)
      rw [Session.machine_withRegisters, hregisters] at hany
      rw [hs₂] at hm
      refine ⟨Iff.rfl, fun _ => ⟨ht, ?_, ?_⟩, fun h => ?_, ?_⟩
      · rw [hm]
        rfl
      · rw [hm]
        exact Registers.generals_setGeneral_congr (congrArg (·.generals) hregisters) r 0
      · simp [h] at hany
      · rw [hm]
        exact Registers.reservation_setGeneral _ _ _
  · obtain ⟨ht, hc⟩ := cycle_of_error he
    have hany := Exec.reservation_of_storeConditional_error hx hp
    rw [Session.machine_withRegisters, hregisters] at hany
    refine ⟨Iff.rfl, fun h => absurd hany h, fun _ h => ?_, ?_⟩
    · simp [ht] at h
    · rw [hc]
      rcases takeTrap_cases s₂ t s.machine.registers.status.address with
        ⟨_, _, -, -, -, -, hm⟩ | ⟨-, hm⟩ <;> rw [hm]

/-- A conditional store finds a reservation exactly if the last load with reserve was at its place
and nothing has broken the reservation since, and what a reservation covers of physical memory
reads as its value says. -/
theorem Reached.reservations {h : List ReservationEvent} (hr : Reached h s) :
    (∀ r, s.machine.registers.reservation = some r → r.address.inIoWindow = false →
      ∃ w : Width, w.bytes = r.length ∧ s.machine.memory.read r.address w false =
        .ok ⟨r.value, s.machine.memory, []⟩) ∧
    ∀ s₁ p w r x, s.fetched? = some (.storeConditional w r x, s₁) →
      (s₁.machine.place (x.address s₁.machine.registers) w .write).1 = .ok p →
      s.StoresIf s₁ p w r (∃ v, ReservationEvent.Outstanding h p v) := by
  obtain ⟨hh, -⟩ := hr.holds
  constructor
  · intro r hres hio
    generalize ReservationEvent.outstanding h = o at hh
    cases hh with
    | none hn => simp [hn] at hres
    | @some p v w hs bound value =>
      obtain rfl := Option.some.inj (hs.symm.trans hres)
      exact ⟨w, rfl, by rw [Memory.read_physical hio, value hio]; rfl⟩
  · intro s₁ p w r x hf hp
    have hiff : s.machine.registers.reservation.any (·.address == p) = true ↔
        ∃ v, ReservationEvent.Outstanding h p v := by
      rw [hh.any_iff]
      simp only [ReservationEvent.outstanding_eq_some]
    rw [← hiff]
    exact storesIf hf hp

/-- A default machine at a load with reserve that is followed by a conditional store at the same
place. -/
def ofPair : Session Empty :=
  (perform ⟨{ Machine.create {} with
      memory.physical := (ByteStore.zeros 0x100000).withProgram 0
        [InstructionWord.pack 1 10 1 0 0 0x6100, InstructionWord.pack 1 11 1 0 0 0x6100] },
    #[]⟩ .reset).2

theorem ofPair_reservations :
    Reached [.reset, .reserved 0x100 .double] ofPair.cycle.2 ∧
      ∃ s₁, ofPair.cycle.2.fetched? =
          some (.storeConditional .double 1 (.displaced 0 0x100), s₁) ∧
        ofPair.cycle.2.StoresIf s₁ 0x100 .double 1
          (∃ v, ReservationEvent.Outstanding [.reset, .reserved 0x100 .double] 0x100 v) := by
  have hcreate : create {} = .ok (⟨.create {}, _⟩ : Session Empty) := rfl
  have hstart : Reached [.reset] ofPair := .start hcreate rfl
  have hr : Reached [.reset, .reserved 0x100 .double] ofPair.cycle.2 :=
    hstart.cycle rfl
  exact ⟨hr, _, rfl, hr.reservations.2 _ _ _ _ _ rfl rfl⟩

end Session

end Processor64
