import Processor64.Proofs.ByteMap

/-!
# The routing of accesses to the I/O window

An access belongs to the first device whose range has all of it, else to the plain store if that
has all of it, and to nothing otherwise. Where the ranges of all devices lie inside the window, this
is so for every address and width, and for reads, previews and writes alike (`access_routed`): a
device is called once, by the method of the access and at an offset inside its range, and neither
another device nor a byte outside the access is read or changed.
-/

namespace Processor64

variable {δ : Type} [Device δ]

/-- The range of the device lies inside the I/O window. -/
def Device.Housed (d : δ) : Prop :=
  ioStart ≤ (base d).toNat ∧ (base d).toNat + (size d).toNat ≤ ioLimit + 1

instance (d : δ) : Decidable (Device.Housed d) := inferInstanceAs (Decidable (_ ∧ _))

/-- The call of a device that an event reports. -/
def Event.call? : Event → Option Transaction
  | .bus t => some t
  | _ => none

/-- The calls of devices that an access has made. -/
def Reply.calls {σ α : Type} (r : Reply σ α) : List Transaction := r.events.filterMap Event.call?

omit [Device δ] in
/-- What is printed is no further call. -/
theorem Peripheral.filterMap_call?_printed (p : Peripheral δ) (offset v : Word) :
    (p.printed offset v).filterMap Event.call? = [] := by
  cases p with
  | console c => by_cases h : offset = Console.dataOffset <;> simp [printed, h, Event.call?]
  | custom d => rfl

namespace IoWindow

variable {io : IoWindow δ} {a : Word} {w : Width}

/-! ## Where an access belongs -/

/-- The device at this place is the first whose range has all of an access. -/
structure Claims (io : IoWindow δ) (a : Word) (w : Width) (place : Fin io.devices.length) :
    Prop where
  contains : Device.Contains (io.devices.get place) a.toNat w.bytes
  first : ∀ i < place, ¬ Device.Contains (io.devices.get i) a.toNat w.bytes

/-- No device has all of an access in its range. -/
def Unclaimed (io : IoWindow δ) (a : Word) (w : Width) : Prop :=
  ∀ d ∈ io.devices, ¬ Device.Contains d a.toNat w.bytes

/-- The store has all of an access. -/
def Stores (io : IoWindow δ) (a : Word) (w : Width) : Prop :=
  ioStart ≤ a.toNat ∧ a.toNat + w.bytes ≤ ioStart + io.backing.size

/-- The ranges of all devices lie inside the window. -/
def Housed (io : IoWindow δ) : Prop := ∀ d ∈ io.devices, Device.Housed d

instance (io : IoWindow δ) : Decidable io.Housed :=
  inferInstanceAs (Decidable (∀ d ∈ io.devices, Device.Housed d))

/-- A range inside the window ends long before sums of addresses saturate. -/
theorem covers_iff_of_housed {d : δ} (h : Device.Housed d) (a : Word) (n : Nat) :
    Device.covers d a n = true ↔ Device.Contains d a.toNat n := by
  obtain ⟨-, hend⟩ := h
  have hle : saturatingSum a.toNat n ≤ saturatingSum (Device.base d).toNat (Device.size d).toNat ↔
      a.toNat + n ≤ (Device.base d).toNat + (Device.size d).toNat := by
    simp only [ioLimit] at hend
    simp only [saturatingSum, UInt64.size]
    omega
  simp only [Device.covers, rangeCovers, Device.Contains, BitVec.ule_eq_decide, Bool.and_eq_true,
    decide_eq_true_eq, hle]

theorem claims_of_find (h : io.Housed) {place : Fin io.devices.length}
    (hf : io.devices.findFinIdx? (Device.covers · a w.bytes) = some place) :
    io.Claims a w place := by
  obtain ⟨hcovers, hfirst⟩ := List.findFinIdx?_eq_some_iff.mp hf
  refine ⟨(covers_iff_of_housed (h _ (List.getElem_mem _)) a _).mp hcovers, fun i hi hc => ?_⟩
  exact hfirst i hi ((covers_iff_of_housed (h _ (List.getElem_mem _)) a _).mpr hc)

theorem find_eq_none_iff (h : io.Housed) :
    io.devices.findFinIdx? (Device.covers · a w.bytes) = none ↔ io.Unclaimed a w := by
  rw [List.findFinIdx?_eq_none_iff]
  exact forall₂_congr fun d hd => not_congr (covers_iff_of_housed (h d hd) a _)

omit [Device δ] in
theorem backs_iff : io.backs a w.bytes = true ↔ io.Stores a w := by
  simp only [backs, ByteStore.covers, Stores, Bool.and_eq_true, decide_eq_true_eq]
  omega

/-- One device at most claims an access. -/
theorem claims_unique {i j : Fin io.devices.length} (hi : io.Claims a w i) (hj : io.Claims a w j) :
    i = j := by
  rcases Nat.lt_trichotomy i j with hlt | heq | hgt
  · exact absurd hi.contains (hj.first i hlt)
  · exact Fin.ext heq
  · exact absurd hj.contains (hi.first j hgt)

/-- An access is claimed by a device, or by none. -/
theorem claims_or_unclaimed (h : io.Housed) (a : Word) (w : Width) :
    (∃ place, io.Claims a w place) ∨ io.Unclaimed a w := by
  rcases hf : io.devices.findFinIdx? (Device.covers · a w.bytes) with _ | place
  · exact .inr ((find_eq_none_iff h).mp hf)
  · exact .inl ⟨place, claims_of_find h hf⟩

theorem target?_of_claims (h : io.Housed) {place : Fin io.devices.length}
    (hc : io.Claims a w place) : io.target? a w = some (.device place) := by
  unfold target?
  rcases hf : io.devices.findFinIdx? (Device.covers · a w.bytes) with _ | i
  · exact absurd hc.contains ((find_eq_none_iff h).mp hf _ (List.getElem_mem _))
  · rw [claims_unique (claims_of_find h hf) hc]

theorem target?_of_unclaimed (h : io.Housed) (hu : io.Unclaimed a w) :
    io.target? a w = if io.backs a w.bytes then some (.backing (a.toNat - ioStart)) else none := by
  rw [target?, (find_eq_none_iff h).mpr hu]

/-! ## What an access does -/

/-- Only the device at a place has changed, and it has become `d`. -/
structure ChangedAt (io : IoWindow δ) (place : Nat) (d : Peripheral δ) (io' : IoWindow δ) :
    Prop where
  device : io'.devices[place]? = some d
  others : ∀ i ≠ place, io'.devices[i]? = io.devices[i]?
  backing : io'.backing = io.backing

omit [Device δ] in
theorem changedAt_set (io : IoWindow δ) (place : Fin io.devices.length) (d : Peripheral δ) :
    io.ChangedAt place d { io with devices := io.devices.set place d } where
  device := by simp
  others i hi := List.getElem?_set_ne (Ne.symm hi)
  backing := rfl

/-- Only the bytes of an access have changed, to those of `v`. -/
structure ChangedBytes (io : IoWindow δ) (a : Word) (w : Width) (v : Word) (io' : IoWindow δ) :
    Prop where
  bytes : ∀ b, io'.backing.byte b =
    if a.toNat ≤ ioStart + b ∧ ioStart + b < a.toNat + w.bytes then v.byte (ioStart + b - a.toNat)
    else io.backing.byte b
  size : io'.backing.size = io.backing.size
  devices : io'.devices = io.devices

/-- The device at a place serves an access: at an offset inside its range it is called once, by the
method of the access and of its width, and the answer is what it answers. -/
structure ServedByDevice (io : IoWindow δ) (a : Word) (w : Width) (d : Peripheral δ) (place : Nat)
    (offset : Word) : Prop where
  located : (Device.base d).toNat + offset.toNat = a.toNat
  within : offset.toNat + w.bytes ≤ (Device.size d).toNat
  read : ∀ signed, ∃ r, io.read a w signed = .ok r ∧
    r.value = w.extend (Device.read d offset w).1 signed ∧
    r.calls = [⟨Device.name d, .read, w, offset⟩] ∧
    io.ChangedAt place (Device.read d offset w).2 r.after
  preview : ∀ signed, ∃ r, io.preview a w signed = .ok r ∧
    r.value = w.extend (Device.peek d offset w) signed ∧
    r.calls = [⟨Device.name d, .peek, w, offset⟩] ∧ r.after = io
  write : ∀ v, ∃ r, io.write a w v = .ok r ∧
    r.calls = [⟨Device.name d, .write (w.truncate v), w, offset⟩] ∧
    io.ChangedAt place (Device.write d offset w (w.truncate v)) r.after

/-- The store serves an access: no device is called, and only the bytes of the access are read or
changed. -/
structure ServedByStore (io : IoWindow δ) (a : Word) (w : Width) : Prop where
  read : ∀ signed, ∃ v : Word, v.IsValueAt (fun b => io.backing.byte (b - ioStart)) a w signed ∧
    io.read a w signed = .ok ⟨v, io, []⟩ ∧ io.preview a w signed = .ok ⟨v, io, []⟩
  write : ∀ v, ∃ r, io.write a w v = .ok r ∧ r.events = [] ∧ io.ChangedBytes a w v r.after

/-- Nothing serves an access: it traps, about its address and its length. -/
structure Refused (io : IoWindow δ) (a : Word) (w : Width) (t : Trap) : Prop where
  code : t.code = .ioMemoryAddress
  address : t.address = some a
  length : t.info2.toNat = w.bytes
  read : ∀ signed, io.read a w signed = .error t
  preview : ∀ signed, io.preview a w signed = .error t
  write : ∀ v, io.write a w v = .error t

/-- Reads, previews and writes all go where the access belongs. -/
structure Routed (io : IoWindow δ) (a : Word) (w : Width) : Prop where
  decided : (∃ place, io.Claims a w place) ∨ io.Unclaimed a w
  device : ∀ place, io.Claims a w place → ∃ offset,
    io.ServedByDevice a w (io.devices.get place) place offset
  store : io.Unclaimed a w → io.Stores a w → io.ServedByStore a w
  nothing : io.Unclaimed a w → ¬ io.Stores a w → ∃ t, io.Refused a w t

/-- The device that claims an access serves it. -/
theorem servedByDevice_of_claims (h : io.Housed) {place : Fin io.devices.length}
    (hc : io.Claims a w place) :
    io.ServedByDevice a w (io.devices.get place) place
      (a - Device.base (io.devices.get place)) := by
  obtain ⟨hlo, hhi⟩ := hc.contains
  have ht := target?_of_claims h hc
  have hoffset : (a - Device.base (io.devices.get place)).toNat =
      a.toNat - (Device.base (io.devices.get place)).toNat := BitVec.toNat_sub_of_le hlo
  refine ⟨by omega, by omega, fun signed => ?_, fun signed => ?_, fun v => ?_⟩
  · refine ⟨_, by rw [read, ht], rfl, rfl, ?_⟩
    exact io.changedAt_set place _
  · exact ⟨_, by rw [preview, ht], rfl, rfl, rfl⟩
  · refine ⟨_, by rw [write, ht], ?_, io.changedAt_set place _⟩
    exact congrArg (_ :: ·) (Peripheral.filterMap_call?_printed _ _ _)

/-- The memory behind the devices serves what none of them claims. -/
theorem servedByStore_of_unclaimed (h : io.Housed) (hu : io.Unclaimed a w) (hs : io.Stores a w) :
    io.ServedByStore a w := by
  obtain ⟨hlo, hhi⟩ := hs
  have ht : io.target? a w = some (.backing (a.toNat - ioStart)) := by
    rw [target?_of_unclaimed h hu, if_pos (backs_iff.mpr ⟨hlo, hhi⟩)]
  refine ⟨fun signed => ?_, fun v => ?_⟩
  · have hvalue : (io.backing.raw (a.toNat - ioStart) w).toNat = littleEndian
        ((List.range w.bytes).map fun i => io.backing.byte (a.toNat + i - ioStart)) := by
      rw [ByteStore.raw, ByteStore.bytesAt_eq_map, Width.toNat_littleEndian]
      simp only [Nat.sub_add_comm hlo]
    exact ⟨_, Width.isValueAt_extend signed hvalue, by rw [read, ht], by rw [preview, ht]⟩
  · refine ⟨_, by rw [write, ht], rfl, fun b => ?_, ByteStore.size_setBytes _ _ _, rfl⟩
    have hfits : a.toNat - ioStart + w.bytes ≤ io.backing.size := by omega
    rw [ByteStore.byte_setBytes_lowBytes v b hfits, show ioStart + b - a.toNat =
      b - (a.toNat - ioStart) by omega]
    exact if_congr (by omega) rfl rfl

/-- What nothing claims is refused. -/
theorem refused_of_unclaimed (h : io.Housed) (hu : io.Unclaimed a w) (hs : ¬ io.Stores a w) :
    io.Refused a w (.unclaimedIo a w) := by
  have ht : io.target? a w = none := by
    rw [target?_of_unclaimed h hu, if_neg (backs_iff.not.mpr hs)]
  refine ⟨rfl, Trap.address_atAddress _ _ (by decide), ?_, fun signed => ?_, fun signed => ?_,
    fun v => ?_⟩
  · cases w <;> rfl
  · rw [read, ht]
  · rw [preview, ht]
  · rw [write, ht]

/-- Where all devices lie inside the window, every access is routed. -/
theorem access_routed (h : io.Housed) (a : Word) (w : Width) : io.Routed a w where
  decided := claims_or_unclaimed h a w
  device _ hc := ⟨_, servedByDevice_of_claims h hc⟩
  store hu hs := servedByStore_of_unclaimed h hu hs
  nothing hu hs := ⟨_, refused_of_unclaimed h hu hs⟩

/-- Two consoles whose ranges overlap in their data registers. -/
def overlapping : IoWindow Empty :=
  ((create 0x2000).attach (.console (.create 0xF0001000))).attach (.console (.create 0xF0001004))

/-- Both consoles have the word at 0xF0001004, and only the second has the eight bytes there. -/
theorem overlapping_routed : overlapping.Housed ∧
    overlapping.Claims 0xF0001004 .word ⟨0, by decide⟩ ∧ overlapping.Routed 0xF0001004 .word ∧
    overlapping.Claims 0xF0001004 .double ⟨1, by decide⟩ ∧
    overlapping.Routed 0xF0001004 .double := by
  have hhoused : overlapping.Housed := by decide
  exact ⟨hhoused, ⟨by decide, by decide⟩, access_routed hhoused _ _, ⟨by decide, by decide⟩,
    access_routed hhoused _ _⟩

end IoWindow

end Processor64
