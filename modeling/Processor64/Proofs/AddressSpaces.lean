import Processor64.Proofs.Routing
import Processor64.Proofs.Stepwise

/-!
# The two address spaces of a valid configuration

A configuration is refused for the first of its requirements that it does not meet
(`Config.Judged`). The memory of one that is not refused keeps its two spaces apart whatever is
asked of it (`Memory.Divided`): what is read or written lies on one side of the start of the I/O
window and not beyond its end, an address outside the window does not reach what is inside, nor the
reverse, and the console lies in the window and over plain I/O memory.
-/

namespace Processor64

variable {δ : Type}

/-! ## Requirements -/

namespace Config

/-- Physical memory is a whole number of pages, and at least one. -/
def WholePages (c : Config) : Prop := ∃ n, 0 < n ∧ c.memory.physicalSize = n * pageSize

/-- The console is off, or has its registers inside I/O memory. -/
def ConsoleFits (c : Config) : Prop :=
  c.console.enabled = false ∨ c.console.offset + Console.size ≤ c.memory.ioSize

/-- The conditions on a configuration. -/
structure Valid (c : Config) : Prop where
  pages : c.WholePages
  below : c.memory.physicalSize ≤ ioStart
  io : c.memory.ioSize ≤ ioWindowSize
  entries : 1 ≤ c.tlb.entries
  console : c.ConsoleFits

/-- The fault of the first requirement that is not met, with the values that do not meet it. -/
inductive FirstFault (c : Config) : ConfigError → Prop where
  | pages (h : ¬ c.WholePages) : FirstFault c (.unevenPhysicalMemory c.memory.physicalSize)
  | below (hpages : c.WholePages) (h : ¬ c.memory.physicalSize ≤ ioStart) :
    FirstFault c (.physicalMemoryOverlapsIo c.memory.physicalSize)
  | io (hpages : c.WholePages) (hbelow : c.memory.physicalSize ≤ ioStart)
    (h : ¬ c.memory.ioSize ≤ ioWindowSize) : FirstFault c (.ioMemoryTooLarge c.memory.ioSize)
  | entries (hpages : c.WholePages) (hbelow : c.memory.physicalSize ≤ ioStart)
    (hio : c.memory.ioSize ≤ ioWindowSize) (h : ¬ 1 ≤ c.tlb.entries) : FirstFault c .noTlbEntries
  | console (hpages : c.WholePages) (hbelow : c.memory.physicalSize ≤ ioStart)
    (hio : c.memory.ioSize ≤ ioWindowSize) (hentries : 1 ≤ c.tlb.entries) (h : ¬ c.ConsoleFits) :
    FirstFault c (.consoleMisplaced c.console.offset c.memory.ioSize)

/-- A configuration is accepted when it is valid, and otherwise refused for its first fault. -/
structure Judged (c : Config) : Prop where
  accepted : c.fault? = none ↔ c.Valid
  refused : ∀ e, c.fault? = some e ↔ c.FirstFault e

variable {c : Config}

theorem not_wholePages_iff :
    ¬ c.WholePages ↔ c.memory.physicalSize = 0 ∨ c.memory.physicalSize % pageSize ≠ 0 := by
  have hpage : 0 < pageSize := by decide
  constructor
  · intro h
    by_contra hnot
    obtain ⟨hpos, hmod⟩ := not_or.mp hnot
    obtain ⟨n, hn⟩ := Nat.dvd_of_mod_eq_zero (not_not.mp hmod)
    refine h ⟨n, Nat.pos_of_ne_zero fun h0 => hpos ?_, hn.trans (Nat.mul_comm _ _)⟩
    rw [hn, h0, Nat.mul_zero]
  · rintro h ⟨n, hn, hsize⟩
    rcases h with h | h
    · exact Nat.ne_of_gt (Nat.mul_pos hn hpage) (hsize.symm.trans h)
    · exact h (by rw [hsize, Nat.mul_mod_left])

theorem not_consoleFits_iff : ¬ c.ConsoleFits ↔
    c.console.enabled = true ∧ c.memory.ioSize < c.console.offset + Console.size := by
  rw [ConsoleFits, not_or, Bool.not_eq_false, Nat.not_le]

/-- The fault that is reported is the first one there is. -/
theorem firstFault_of_fault? {e : ConfigError} (h : c.fault? = some e) : c.FirstFault e := by
  simp only [fault?] at h
  split at h
  · rename_i hfails
    exact Option.some.inj h ▸ .pages (not_wholePages_iff.mpr hfails)
  rename_i hmet
  have hpages : c.WholePages := not_not.mp (not_wholePages_iff.not.mpr hmet)
  split at h
  · rename_i hfails
    exact Option.some.inj h ▸ .below hpages (Nat.not_le.mpr hfails)
  rename_i hmet
  have hbelow := Nat.le_of_not_lt hmet
  split at h
  · rename_i hfails
    exact Option.some.inj h ▸ .io hpages hbelow (Nat.not_le.mpr hfails)
  rename_i hmet
  have hio := Nat.le_of_not_lt hmet
  split at h
  · rename_i hfails
    exact Option.some.inj h ▸ .entries hpages hbelow hio (by omega)
  rename_i hmet
  have hentries := Nat.pos_of_ne_zero hmet
  split at h
  · rename_i hfails
    have hplace := (misplaced_iff hio).mp hfails.2
    exact Option.some.inj h ▸ .console hpages hbelow hio hentries
      (not_consoleFits_iff.mpr ⟨hfails.1, hplace⟩)
  · cases h

/-- Without a fault, every condition holds. -/
theorem valid_of_fault? (h : c.fault? = none) : c.Valid := by
  have hfits := fits_of_fault? h
  simp only [fault?] at h
  repeat' split at h
  all_goals cases h
  rename_i hpages _ _ hentries hconsole
  have hplace : ¬ (c.console.enabled = true ∧ c.memory.ioSize < c.console.offset + Console.size) :=
    fun hout => hconsole ⟨hout.1, (misplaced_iff hfits.ioSize).mpr hout.2⟩
  exact ⟨not_not.mp (not_wholePages_iff.not.mpr hpages), hfits.physicalSize, hfits.ioSize,
    Nat.pos_of_ne_zero hentries, not_not.mp (not_consoleFits_iff.not.mpr hplace)⟩

/-- There is one first fault at most. -/
theorem FirstFault.unique {e e' : ConfigError} (h : c.FirstFault e) (h' : c.FirstFault e') :
    e = e' := by
  cases h <;> cases h' <;> first | rfl | contradiction

theorem FirstFault.not_valid {e : ConfigError} (h : c.FirstFault e) : ¬ c.Valid := by
  rintro ⟨hpages, hbelow, hio, hentries, hconsole⟩
  cases h <;> contradiction

/-- A configuration is accepted or refused as its requirements say. -/
theorem judged (c : Config) : c.Judged where
  accepted := by
    refine ⟨valid_of_fault?, fun hvalid => ?_⟩
    rcases h : c.fault? with _ | e
    · rfl
    · exact absurd hvalid (firstFault_of_fault? h).not_valid
  refused e := by
    refine ⟨firstFault_of_fault?, fun hfirst => ?_⟩
    rcases h : c.fault? with _ | e'
    · exact absurd (valid_of_fault? h) hfirst.not_valid
    · rw [(firstFault_of_fault? h).unique hfirst]

end Config

/-! ## What stays -/

theorem Console.base_read (k : Console) (offset : Word) (w : Width) :
    (k.read offset w).2.base = k.base := by
  rw [read_eq]
  dsimp only
  split <;> rfl

theorem Console.base_write (k : Console) (offset : Word) (w : Width) (v : Word) :
    (k.write offset w v).base = k.base := by
  unfold write
  split <;> rfl

/-- What may be asked of a memory. -/
inductive MemoryRequest where
  | read (p : Word) (w : Width) (signed : Bool)
  | preview (p : Word) (w : Width) (signed : Bool)
  | write (p : Word) (w : Width) (v : Word)
  | readPhysical (p : Word) (w : Width) (signed : Bool)
  | writePhysical (p : Word) (w : Width) (v : Word)
  | readIo (p : Word) (w : Width) (signed : Bool)
  | writeIo (p : Word) (w : Width) (v : Word)
  | load (p : Word) (image : List UInt8)
  | pushInput (bytes : List UInt8)
  | takeOutput

namespace Memory

/-- The memory that a reply leaves; a trap leaves the one that there was. -/
def settle {α : Type} (m : Memory δ) : Except Trap (Reply (Memory δ) α) → Memory δ
  | .ok r => r.after
  | .error _ => m

/-- Memory after a request, whatever the answer was. -/
def serve [Device δ] (m : Memory δ) : MemoryRequest → Memory δ
  | .read p w signed => m.settle (m.read p w signed)
  | .preview p w signed => m.settle (m.preview p w signed)
  | .write p w v => m.settle (m.write p w v)
  | .readPhysical p w signed => m.settle (m.readPhysical p w signed)
  | .writePhysical p w v => m.settle (m.writePhysical p w v)
  | .readIo p w signed => m.settle (m.readIo p w signed)
  | .writeIo p w v => m.settle (m.writeIo p w v)
  | .load p image =>
    match m.load p image with
    | .ok n => n
    | .error _ => m
  | .pushInput bytes => { m with io := m.io.pushInput bytes }
  | .takeOutput => { m with io := m.io.takeOutput.2 }

/-- The requests one after the other. -/
def serveAll [Device δ] (m : Memory δ) (rs : List MemoryRequest) : Memory δ := rs.foldl serve m

variable {m n : Memory δ} {c : Config} {p v : Word} {w : Width} {signed : Bool}

namespace IsOf

theorem of_sameSize (h : m.IsOf c) (hsize : m.SameSize n) (hd : n.io.devices = m.io.devices) :
    n.IsOf c where
  physicalSize := hsize.physical.trans h.physicalSize
  ioSize := hsize.backing.trans h.ioSize
  enabled := by rw [hd, h.enabled]
  consoles := by
    rw [hd]
    exact h.consoles

theorem set_console (h : m.IsOf c) (place : Nat) {k : Console} (hk : k.base = c.console.base) :
    ({ m with io.devices := m.io.devices.set place (.console k) } : Memory δ).IsOf c where
  physicalSize := h.physicalSize
  ioSize := h.ioSize
  enabled := by
    show m.io.devices.set place _ ≠ [] ↔ _
    rw [Ne, List.set_eq_nil_iff, ← h.enabled]
  consoles d hd := by
    rcases List.mem_or_eq_of_mem_set hd with hd | rfl
    · exact h.consoles d hd
    · exact ⟨k, rfl, hk⟩

/-- The host does not move a console. -/
theorem mapConsole (h : m.IsOf c) {f : Console → Console} (hf : ∀ k, (f k).base = k.base) :
    ({ m with io := m.io.mapConsole f } : Memory δ).IsOf c := by
  have hall : ∀ ps : List (Peripheral δ),
      (∀ d ∈ ps, ∃ k, d = .console k ∧ k.base = c.console.base) →
      ∀ d ∈ IoWindow.mapConsole.go f ps, ∃ k, d = .console k ∧ k.base = c.console.base := by
    intro ps hps d hd
    rcases ps with _ | ⟨p, ps⟩
    · cases hd
    · obtain ⟨k, rfl, hk⟩ := hps p List.mem_cons_self
      rcases List.mem_cons.mp hd with rfl | hd
      · exact ⟨f k, rfl, (hf k).trans hk⟩
      · exact hps d (List.mem_cons_of_mem _ hd)
  have hnil : ∀ ps : List (Peripheral δ), IoWindow.mapConsole.go f ps = [] ↔ ps = [] := by
    intro ps
    rcases ps with _ | ⟨_ | _, _⟩ <;> simp [IoWindow.mapConsole.go]
  exact ⟨h.physicalSize, h.ioSize, (hnil _).not.trans h.enabled, hall _ h.consoles⟩

theorem settle {α : Type} {x : Except Trap (Reply (Memory δ) α)} (h : m.IsOf c)
    (hx : ∀ r, x = .ok r → r.after.IsOf c) : (m.settle x).IsOf c := by
  rcases x with t | r
  · exact h
  · exact hx r rfl

theorem of_readPhysical {r : Reply (Memory δ) Word} (h : m.IsOf c)
    (hr : m.readPhysical p w signed = .ok r) : r.after.IsOf c := by
  obtain ⟨_, -, rfl⟩ := exceptMap_eq_ok.mp hr
  exact h

theorem of_writePhysical {r : Reply (Memory δ) Unit} (h : m.IsOf c)
    (hr : m.writePhysical p w v = .ok r) : r.after.IsOf c := by
  refine h.of_sameSize (.of_writePhysical hr) ?_
  obtain ⟨_, -, rfl⟩ := exceptMap_eq_ok.mp hr
  rfl

variable [Device δ]

theorem of_readIo {r : Reply (Memory δ) Word} (h : m.IsOf c) (hr : m.readIo p w signed = .ok r) :
    r.after.IsOf c := by
  obtain ⟨q, hq, rfl⟩ := exceptMap_eq_ok.mp hr
  rcases IoWindow.read_cases hq with ⟨place, d, -, hplace, rfl⟩ | ⟨_, -, rfl⟩
  · obtain ⟨k, rfl, hbase⟩ := h.consoles d (hplace ▸ List.get_mem _ _)
    exact h.set_console place ((k.base_read _ w).trans hbase)
  · exact h

theorem of_writeIo {r : Reply (Memory δ) Unit} (h : m.IsOf c) (hr : m.writeIo p w v = .ok r) :
    r.after.IsOf c := by
  have hsize := SameSize.of_writeIo hr
  obtain ⟨q, hq, rfl⟩ := exceptMap_eq_ok.mp hr
  rcases IoWindow.write_cases hq with ⟨place, d, -, hplace, hafter⟩ | ⟨_, -, hafter⟩
  · obtain ⟨k, rfl, hbase⟩ := h.consoles d (hplace ▸ List.get_mem _ _)
    simp only [Reply.within, hafter]
    exact h.set_console place ((k.base_write _ w _).trans hbase)
  · exact h.of_sameSize hsize (by simp only [Reply.within, hafter])

theorem serve (h : m.IsOf c) (r : MemoryRequest) : (m.serve r).IsOf c := by
  cases r with
  | read p w signed =>
    refine h.settle fun r hr => ?_
    unfold read at hr
    split at hr
    · exact h.of_readIo hr
    · exact h.of_readPhysical hr
  | preview p w signed => exact h.settle fun r hr => by rwa [after_preview hr]
  | write p w v =>
    refine h.settle fun r hr => ?_
    unfold write at hr
    split at hr
    · exact h.of_writeIo hr
    · exact h.of_writePhysical hr
  | readPhysical p w signed => exact h.settle fun r => h.of_readPhysical
  | writePhysical p w v => exact h.settle fun r => h.of_writePhysical
  | readIo p w signed => exact h.settle fun r => h.of_readIo
  | writeIo p w v => exact h.settle fun r => h.of_writeIo
  | load p image =>
    rcases hl : m.load p image with t | n <;> simp only [Memory.serve, hl]
    · exact h
    · refine h.of_sameSize (.of_load hl) ?_
      obtain ⟨_, -, rfl⟩ := exceptMap_eq_ok.mp hl
      rfl
  | pushInput bytes => exact h.mapConsole fun _ => rfl
  | takeOutput => exact h.mapConsole fun _ => rfl

theorem serveAll (h : m.IsOf c) (rs : List MemoryRequest) : (m.serveAll rs).IsOf c := by
  induction rs generalizing m with
  | nil => exact h
  | cons r rs ih => exact ih (h.serve r)

end IsOf

/-! ## What an access touches -/

variable [Device δ]

/-- An access of this width is made at an address. -/
def Serves (m : Memory δ) (p : Word) (w : Width) : Prop :=
  (∃ signed r, m.read p w signed = .ok r) ∨ (∃ signed r, m.preview p w signed = .ok r) ∨
    ∃ v r, m.write p w v = .ok r

/-- An access of this width is made at an address of physical memory itself. -/
def ServesPhysical (m : Memory δ) (p : Word) (w : Width) : Prop :=
  (∃ signed r, m.readPhysical p w signed = .ok r) ∨ ∃ v r, m.writePhysical p w v = .ok r

/-- An access of this width is made at an address of the I/O window itself. -/
def ServesIo (m : Memory δ) (p : Word) (w : Width) : Prop :=
  (∃ signed r, m.readIo p w signed = .ok r) ∨ ∃ v r, m.writeIo p w v = .ok r

/-- The memories agree in their devices, their sizes and the bytes that an access covers. -/
structure AgreeAt (m n : Memory δ) (p : Word) (w : Width) : Prop where
  size : m.SameSize n
  devices : n.io.devices = m.io.devices
  bytes : ∀ b, p.toNat ≤ b → b < p.toNat + w.bytes → n.byteAt b = m.byteAt b

/-- Of the bytes of memory a read finds those that it covers, and a write changes no others. -/
structure TouchesOnly (m : Memory δ) (p : Word) (w : Width) : Prop where
  read : ∀ signed n, m.AgreeAt n p w →
    (n.read p w signed).map (·.value) = (m.read p w signed).map (·.value)
  write : ∀ v r, m.write p w v = .ok r → ∀ b, b < p.toNat ∨ p.toNat + w.bytes ≤ b →
    r.after.byteAt b = m.byteAt b

/-- The two spaces of the memory are apart. -/
structure Divided (m : Memory δ) : Prop where
  touched : ∀ p w, m.TouchesOnly p w
  outside : ∀ p w, p.inIoWindow = false → m.Serves p w → p.toNat + w.bytes ≤ ioStart
  inside : ∀ p w, p.inIoWindow = true → m.Serves p w →
    ioStart ≤ p.toNat ∧ p.toNat + w.bytes ≤ ioLimit + 1
  apart : m.Apart
  physical : ∀ p w, m.ServesPhysical p w → p.toNat + w.bytes ≤ ioStart
  io : ∀ p w, m.ServesIo p w → ioStart ≤ p.toNat ∧ p.toNat + w.bytes ≤ ioLimit + 1
  image : ∀ p bytes n, m.load p bytes = .ok n → p.toNat + bytes.length ≤ ioStart

/-- The console is where the configuration puts it: its address is a sum that does not overflow, and
its registers lie in the window and over plain I/O memory. -/
structure HoldsConsole (m : Memory δ) (c : Config) : Prop where
  base : c.console.base.toNat = ioStart + c.console.offset
  attached : ∃ d ∈ m.io.devices,
    Device.base d = c.console.base ∧ (Device.size d).toNat = Console.size
  window : ∀ i < Console.size, (c.console.base + BitVec.ofNat 64 i).inIoWindow = true
  backing : ∀ i < Console.size, m.io.backs (c.console.base + BitVec.ofNat 64 i) 1 = true

theorem verdict_of_serves (h : m.Serves p w) : m.verdict p w = .ok p := by
  rcases hv : m.verdict p w with t | q
  · exfalso
    rcases h with ⟨signed, r, h⟩ | ⟨signed, r, h⟩ | ⟨v, r, h⟩
    · have hd := m.decides_read p w signed .read
      rw [hv, h] at hd
      cases hd
    · have hd := m.decides_preview p w signed .read
      rw [hv, h] at hd
      cases hd
    · have hd := m.decides_write p v w .write
      rw [hv, h] at hd
      cases hd
  · rw [eq_of_verdict hv]

/-- What the window serves lies inside it. -/
theorem within_of_target? {io : IoWindow δ} (h : io.Housed) (hsize : io.backing.size ≤ ioWindowSize)
    (ht : io.target? p w ≠ none) : ioStart ≤ p.toNat ∧ p.toNat + w.bytes ≤ ioLimit + 1 := by
  rcases IoWindow.claims_or_unclaimed h p w with ⟨place, hc⟩ | hu
  · obtain ⟨hlo, hhi⟩ := hc.contains
    obtain ⟨hstart, hend⟩ := h _ (List.getElem_mem place.isLt)
    exact ⟨Nat.le_trans hstart hlo, Nat.le_trans hhi hend⟩
  · rw [IoWindow.target?_of_unclaimed h hu] at ht
    have hbacks : io.backs p w.bytes = true := by
      by_contra hnot
      exact ht (if_neg hnot)
    obtain ⟨hlo, hhi⟩ := IoWindow.backs_iff.mp hbacks
    have hlimit : ioStart + ioWindowSize = ioLimit + 1 := by decide
    exact ⟨hlo, by omega⟩

theorem target?_of_servesIo (h : m.ServesIo p w) : m.io.target? p w ≠ none := by
  intro ht
  rcases h with ⟨signed, r, h⟩ | ⟨v, r, h⟩
  · rw [readIo, IoWindow.read, ht] at h
    cases h
  · rw [writeIo, IoWindow.write, ht] at h
    cases h

omit [Device δ] in
theorem le_of_servesPhysical (h : m.ServesPhysical p w) : p.toNat + w.bytes ≤ m.physical.size := by
  rcases h with ⟨signed, r, h⟩ | ⟨v, r, h⟩
  · obtain ⟨_, hs, -⟩ := exceptMap_eq_ok.mp h
    exact (ByteStore.read_eq_ok hs).1
  · obtain ⟨_, hs, -⟩ := exceptMap_eq_ok.mp h
    exact (ByteStore.write_eq_ok hs).1

omit [Device δ] in
theorem le_of_load {image : List UInt8} (h : m.load p image = .ok n) :
    p.toNat + image.length ≤ m.physical.size := by
  obtain ⟨s, hs, -⟩ := exceptMap_eq_ok.mp h
  unfold ByteStore.load at hs
  split at hs
  · rename_i hcovers
    simpa [ByteStore.covers] using hcovers
  · cases hs

/-- The value of a read of the window, where the devices and the bytes that it covers are given. -/
theorem value_readIo {back back' : ByteStore} (ds : List (Peripheral δ)) (signed : Bool)
    (hsize : back'.size = back.size)
    (hbytes : ∀ b, p.toNat ≤ ioStart + b → ioStart + b < p.toNat + w.bytes →
      back'.byte b = back.byte b) :
    ((⟨back', ds⟩ : IoWindow δ).read p w signed).map (·.value) =
      ((⟨back, ds⟩ : IoWindow δ).read p w signed).map (·.value) := by
  have hbacks : (⟨back', ds⟩ : IoWindow δ).backs p w.bytes =
      (⟨back, ds⟩ : IoWindow δ).backs p w.bytes := by
    simp only [IoWindow.backs, ByteStore.covers, hsize]
  unfold IoWindow.read IoWindow.target?
  rw [hbacks]
  rcases ds.findFinIdx? (Device.covers · p w.bytes) with _ | place
  · rcases hb : (⟨back, ds⟩ : IoWindow δ).backs p w.bytes
    · rfl
    · have hlo := (IoWindow.backs_iff.mp hb).1
      have hraw : back'.raw (p.toNat - ioStart) w = back.raw (p.toNat - ioStart) w := by
        unfold ByteStore.raw
        rw [ByteStore.bytesAt_congr fun b hlo' hhi' => hbytes b (by omega) (by omega)]
      simp only [if_true, hraw]
      rfl
  · rfl

theorem value_read {signed : Bool} (hm : m.physical.size ≤ ioStart) (h : m.AgreeAt n p w) :
    (n.read p w signed).map (·.value) = (m.read p w signed).map (·.value) := by
  obtain ⟨⟨hphysical, hbacking⟩, hdevices, hbytes⟩ := h
  rcases hp : p.inIoWindow
  · rw [read_physical hp, read_physical hp]
    by_cases hle : p.toNat + w.bytes ≤ m.physical.size
    · have hread : n.physical.read p w signed = m.physical.read p w signed := by
        refine ByteStore.read_congr hphysical (fun b hlo hhi => ?_) signed
        have hb := hbytes b hlo hhi
        rwa [byteAt, byteAt, if_pos (by omega), if_pos (by omega)] at hb
      rw [hread]
      cases m.physical.read p w signed <;> rfl
    · simp [ByteStore.read, ByteStore.covers, hphysical, hle, Except.map]
  · rw [read_io hp, read_io hp]
    obtain ⟨ph, ⟨back, ds⟩⟩ := m
    obtain ⟨ph', ⟨back', ds'⟩⟩ := n
    obtain rfl : ds' = ds := hdevices
    have hvalue := value_readIo ds' signed hbacking fun b hlo hhi => by
      have hb := hbytes (ioStart + b) hlo hhi
      rwa [byteAt, byteAt, if_neg (by omega), if_neg (by omega), Nat.add_sub_cancel_left] at hb
    revert hvalue
    show Except.map _ (IoWindow.read ⟨back', ds'⟩ p w signed) =
        Except.map _ (IoWindow.read ⟨back, ds'⟩ p w signed) → _
    rcases IoWindow.read ⟨back', ds'⟩ p w signed with _ | _ <;>
      rcases IoWindow.read ⟨back, ds'⟩ p w signed with _ | _ <;> exact id

/-- A write to the window changes no byte of its store outside the access. -/
theorem byte_writeIo {io : IoWindow δ} {r : Reply (IoWindow δ) Unit} (hio : io.Housed)
    (h : io.write p w v = .ok r) {b : Nat}
    (hb : ioStart + b < p.toNat ∨ p.toNat + w.bytes ≤ ioStart + b) :
    r.after.backing.byte b = io.backing.byte b := by
  rcases IoWindow.claims_or_unclaimed hio p w with ⟨place, hc⟩ | hu
  · obtain ⟨q, hq, -, hchanged⟩ := (IoWindow.servedByDevice_of_claims hio hc).write v
    obtain rfl := Except.ok.inj (h.symm.trans hq)
    rw [hchanged.backing]
  · by_cases hs : io.Stores p w
    · obtain ⟨q, hq, -, hchanged⟩ := (IoWindow.servedByStore_of_unclaimed hio hu hs).write v
      obtain rfl := Except.ok.inj (h.symm.trans hq)
      rw [hchanged.bytes, if_neg (by omega)]
    · have hrefused := (IoWindow.refused_of_unclaimed hio hu hs).write v
      rw [h] at hrefused
      cases hrefused

theorem byteAt_write {r : Reply (Memory δ) Unit} (hio : m.io.Housed)
    (h : m.write p w v = .ok r) {b : Nat} (hb : b < p.toNat ∨ p.toNat + w.bytes ≤ b) :
    r.after.byteAt b = m.byteAt b := by
  unfold byteAt
  split
  · rw [byte_write h, if_neg (by omega)]
  · rcases hp : p.inIoWindow
    · rcases write_eq_ok h with ⟨hin, -⟩ | ⟨-, -, hsame, -⟩
      · rw [hp] at hin
        cases hin
      · rw [hsame]
    · rw [write_io hp] at h
      obtain ⟨q, hq, rfl⟩ := exceptMap_eq_ok.mp h
      exact byte_writeIo hio hq (by omega)

namespace IsOf

/-- Memory in the shape of a configuration that fits has its devices within the window. -/
theorem housed (h : m.IsOf c) (hc : c.Fits) : m.io.Housed := by
  intro d hd
  obtain ⟨k, rfl, hk⟩ := h.consoles d hd
  have he := h.enabled.mp (List.ne_nil_of_mem hd)
  have hbase := hc.toNat_base he
  have hfits := hc.console he
  have hio := hc.ioSize
  show ioStart ≤ k.base.toNat ∧ k.base.toNat + Console.size ≤ ioLimit + 1
  rw [hk, hbase]
  simp only [ioWindowSize, ioStart, ioLimit] at *
  omega

/-- The memory of a configuration that fits has its two spaces apart. -/
theorem divided (h : m.IsOf c) (hc : c.Fits) : m.Divided := by
  have hphysical : m.physical.size ≤ ioStart := h.physicalSize ▸ hc.physicalSize
  have hbacking : m.io.backing.size ≤ ioWindowSize := h.ioSize ▸ hc.ioSize
  have hio := h.housed hc
  refine ⟨fun p w => ⟨fun signed n => value_read hphysical, fun v r hr b => byteAt_write hio hr⟩,
    fun p w hp hs => ?_, fun p w hp hs => ?_, m.apart,
    fun p w hs => Nat.le_trans (le_of_servesPhysical hs) hphysical,
    fun p w hs => within_of_target? hio hbacking (target?_of_servesIo hs),
    fun p bytes n hl => Nat.le_trans (le_of_load hl) hphysical⟩
  · have hv := verdict_of_serves hs
    rw [verdict_physical hp] at hv
    split at hv
    · rename_i hcovers
      exact Nat.le_trans (by simpa [ByteStore.covers] using hcovers) hphysical
    · cases hv
  · have hv := verdict_of_serves hs
    rw [verdict_io hp] at hv
    split at hv
    · cases hv
    · exact within_of_target? hio hbacking ‹_›

theorem holdsConsole (h : m.IsOf c) (hc : c.Fits) (he : c.console.enabled = true) :
    m.HoldsConsole c := by
  have hbase := hc.toNat_base he
  have hfits := hc.console he
  have hio := hc.ioSize
  have hlimit : ioStart + ioWindowSize = ioLimit + 1 := by decide
  have hplace : ∀ i < Console.size, (c.console.base + BitVec.ofNat 64 i).toNat =
      ioStart + c.console.offset + i := by
    intro i hi
    have hword : ioLimit + 1 < 2 ^ 64 := by decide
    rw [BitVec.toNat_add, BitVec.toNat_ofNat, hbase, Nat.mod_eq_of_lt (show i < 2 ^ 64 by omega),
      Nat.mod_eq_of_lt (by omega)]
  refine ⟨hbase, ?_, fun i hi => ?_, fun i hi => ?_⟩
  · obtain ⟨d, hd⟩ := List.exists_mem_of_ne_nil _ (h.enabled.mpr he)
    obtain ⟨k, rfl, hk⟩ := h.consoles d hd
    exact ⟨_, hd, hk, rfl⟩
  · have hi' := hplace i hi
    simp only [Word.inIoWindow, hi', Bool.and_eq_true, decide_eq_true_eq]
    omega
  · have hi' := hplace i hi
    simp only [IoWindow.backs, ByteStore.covers, hi', h.ioSize, Bool.and_eq_true,
      decide_eq_true_eq]
    omega

end IsOf

end Memory

/-- A memory built as the configuration says: its two spaces are apart, and it has a device exactly
if there is to be a console, which is then in its place. -/
structure Config.Builds (c : Config) (m : Memory δ) [Device δ] : Prop where
  divided : m.Divided
  console : c.console.enabled = true → m.HoldsConsole c
  devices : m.io.devices ≠ [] ↔ c.console.enabled = true

/-- A configuration is judged by its requirements, and what is built from an accepted one is
divided whatever is asked of it. -/
theorem Config.judged_and_built [Device δ] (c : Config) (rs : List MemoryRequest) :
    c.Judged ∧ (c.fault? = none → c.Builds ((Memory.create c : Memory δ).serveAll rs)) := by
  refine ⟨c.judged, fun h => ?_⟩
  have hc := fits_of_fault? h
  have hof := (Memory.isOf_create c : (Memory.create c : Memory δ).IsOf c).serveAll rs
  exact ⟨hof.divided hc, hof.holdsConsole hc, hof.enabled⟩

/-- The largest configuration: physical memory up to the window, which is filled with I/O memory
whose last bytes are the console. -/
def Config.largest : Config where
  memory := { physicalSize := ioStart, ioSize := ioWindowSize }
  console := { offset := ioWindowSize - Console.size }

theorem Config.largest_built : Config.largest.fault? = none ∧
    Config.largest.Builds ((Memory.create .largest : Memory Empty).serveAll
      [.write 0xEFFFFFFC .double 1, .write 0xFFFFFFF8 .half 0x41,
        .read 0xFFFFFFF8 .double false]) := by
  have h : Config.largest.fault? = none := by decide
  exact ⟨h, (Config.largest.judged_and_built _).2 h⟩

end Processor64
