import Processor64.Config.Reader
import Processor64.Proofs.Deserializing

/-!
# Partial configurations

A text that gives values to some of the fields stands for the defaults with these values in their
places, whatever the order, the blanks and the unknown members, and is then checked
(`ofTextBy_eq_checked_applyTo`). This is so for every deserializer that follows the grammar and the
declarations. A section that is left out, one that is empty and a field that is left out come to the
same, because the defaults of the fields of each section are the default of the whole section
(`GeneralConfig.defaults_declaration` and its like).
-/

namespace Processor64

open Json

/-! ## Defaults -/

/-- The record of which no field is written. -/
def Declaration.defaults {S : Type} : Declaration S → S
  | record make => make
  | field d f => d.defaults f.default

/-- No members at all stand for the defaults. -/
theorem Declaration.in_nil {S : Type} (d : Declaration S) : d.In [] d.defaults := by
  induction d with
  | record make => exact .record make
  | field d f ih => exact .field ih (.absent (hasNone_nil f.name))

theorem GeneralConfig.defaults_declaration (l : Deserializer) : (declaration l).defaults = {} := rfl

theorem MemoryConfig.defaults_declaration (l : Deserializer) : (declaration l).defaults = {} := rfl

theorem TlbConfig.defaults_declaration (l : Deserializer) : (declaration l).defaults = {} := rfl

theorem ConsoleConfig.defaults_declaration (l : Deserializer) : (declaration l).defaults = {} := rfl

/-! ## Values of fields -/

/-- A truth value as a file writes it. -/
def WritesBool (b : Bool) (v : Json) : Prop := v = .bool b

/-- Digits without a sign, a fraction or an exponent. -/
def WritesWord (w : Word) (v : Json) : Prop := v = .number ⟨false, Nat.toDigits 10 w.toNat, true⟩

/-- A policy as a file writes it: by its name. -/
def WritesPolicy (p : TrapPolicy) (v : Json) : Prop :=
  ∃ ps, v = .string ps ∧ Spells ps p.name.toList

section Values

variable {l : Deserializer} {v : Json}

theorem WritesBool.read {b : Bool} (h : WritesBool b v) (hl : l.Follows) : l.bool v = some b := by
  rw [h, hl.bool]

theorem WritesWord.read {w : Word} (h : WritesWord w v) (hl : l.Follows) :
    l.unsigned v = some w.toNat := by
  rw [h]
  exact hl.unsigned w.isLt

theorem WritesWord.read_word {w : Word} (h : WritesWord w v) (hl : l.Follows) :
    (l.unsigned v).map (BitVec.ofNat 64) = some w := by
  rw [h.read hl, Option.map_some, BitVec.ofNat_toNat, BitVec.setWidth_eq]

/-- A written policy is read back. -/
theorem WritesPolicy.read {p : TrapPolicy} (h : WritesPolicy p v) (hl : l.Follows) :
    l.variant TrapPolicy.variants v = some p := by
  obtain ⟨ps, rfl, hs⟩ := h
  exact hl.variant (by decide) (by cases p <;> decide) hs

end Values

/-- A field that has a value is written once, and a field that has none is not written. -/
def Assigned {α : Type} (writes : α → Json → Prop) (ms : Members) (name : String) :
    Option α → Prop
  | none => HasNone ms name
  | some a => ∃ v, HasOnce ms name v ∧ writes a v

section Fields

variable {α β : Type} {writes : α → Json → Prop} {ms : Members} {o : Option α}

/-- A field that may be assigned is read as what was assigned, or as its default. -/
theorem Assigned.field_map {f : Field β} (h : Assigned writes ms f.name o) {g : α → β}
    (hread : ∀ a v, writes a v → f.read v = some (g a)) :
    f.In ms ((o.map g).getD f.default) := by
  cases o with
  | none => exact .absent h
  | some a =>
    obtain ⟨v, hv, hw⟩ := h
    exact .written hv (hread a v hw)

theorem Assigned.field {f : Field α} (h : Assigned writes ms f.name o)
    (hread : ∀ a v, writes a v → f.read v = some a) : f.In ms (o.getD f.default) := by
  simpa using h.field_map (g := id) hread

end Fields

namespace Config

/-! ## Sections -/

/-- Values for some of the fields. -/
structure Overlay where
  traceInstructions : Option Bool := none
  startAddress : Option Word := none
  trapPolicy : Option TrapPolicy := none
  physicalSize : Option Word := none
  ioSize : Option Word := none
  entries : Option Word := none
  enabled : Option Bool := none
  offset : Option Word := none

namespace Overlay

/-- The configuration with the given values in their places. -/
def applyTo (o : Overlay) (c : Config) : Config where
  general := {
    traceInstructions := o.traceInstructions.getD c.general.traceInstructions
    startAddress := o.startAddress.getD c.general.startAddress
    trapPolicy := o.trapPolicy.getD c.general.trapPolicy }
  memory := {
    physicalSize := (o.physicalSize.map BitVec.toNat).getD c.memory.physicalSize
    ioSize := (o.ioSize.map BitVec.toNat).getD c.memory.ioSize }
  tlb := { entries := (o.entries.map BitVec.toNat).getD c.tlb.entries }
  console := {
    enabled := o.enabled.getD c.console.enabled
    offset := (o.offset.map BitVec.toNat).getD c.console.offset }

/-- The members of the general section, as far as they are given. -/
structure GeneralIn (o : Overlay) (ms : Members) : Prop where
  names : Named ms
  trace : Assigned WritesBool ms "trace_instructions" o.traceInstructions
  start : Assigned WritesWord ms "start_address" o.startAddress
  policy : Assigned WritesPolicy ms "trap_policy" o.trapPolicy

structure MemoryIn (o : Overlay) (ms : Members) : Prop where
  names : Named ms
  physical : Assigned WritesWord ms "phys_mem_size" o.physicalSize
  io : Assigned WritesWord ms "io_mem_size" o.ioSize

structure TlbIn (o : Overlay) (ms : Members) : Prop where
  names : Named ms
  entries : Assigned WritesWord ms "entries" o.entries

structure ConsoleIn (o : Overlay) (ms : Members) : Prop where
  names : Named ms
  enabled : Assigned WritesBool ms "enabled" o.enabled
  offset : Assigned WritesWord ms "offset" o.offset

/-- A section is written once, or left out if it has no field to write. -/
def SectionIn (ms : Members) (name : String) (fields : Members → Prop) : Prop :=
  (HasNone ms name ∧ fields []) ∨ ∃ inner, HasOnce ms name (.object inner) ∧ fields inner

/-- The members of an object write the fields that have a value in their sections, and no field that
has none. -/
structure WrittenIn (o : Overlay) (ms : Members) : Prop where
  names : Named ms
  general : SectionIn ms "general" o.GeneralIn
  memory : SectionIn ms "memory" o.MemoryIn
  tlb : SectionIn ms "tlb" o.TlbIn
  console : SectionIn ms "console" o.ConsoleIn

variable {o : Overlay} {ms : Members} {l : Deserializer}

/-- The general section is read as its overlay over the defaults. -/
theorem GeneralIn.reads (h : o.GeneralIn ms) (hl : l.Follows) :
    (GeneralConfig.declaration l).In ms (o.applyTo {}).general := by
  have htrace := h.trace.field (f := ⟨_, l.bool, false⟩) fun _ _ h => h.read hl
  have hstart := h.start.field (f := ⟨_, _, GeneralConfig.defaultStartAddress⟩)
    fun _ _ h => h.read_word hl
  have hpolicy := h.policy.field (f := ⟨_, _, .halt⟩) fun _ _ h => h.read hl
  exact .field (.field (.field (.record _) htrace) hstart) hpolicy

theorem MemoryIn.reads (h : o.MemoryIn ms) (hl : l.Follows) :
    (MemoryConfig.declaration l).In ms (o.applyTo {}).memory := by
  have hphysical := h.physical.field_map (f := ⟨_, _, MemoryConfig.defaultPhysicalSize⟩)
    fun _ _ h => h.read hl
  have hio := h.io.field_map (f := ⟨_, _, MemoryConfig.defaultIoSize⟩) fun _ _ h => h.read hl
  exact .field (.field (.record _) hphysical) hio

theorem TlbIn.reads (h : o.TlbIn ms) (hl : l.Follows) :
    (TlbConfig.declaration l).In ms (o.applyTo {}).tlb := by
  have hentries := h.entries.field_map (f := ⟨_, _, TlbConfig.defaultEntries⟩)
    fun _ _ h => h.read hl
  exact .field (.record _) hentries

theorem ConsoleIn.reads (h : o.ConsoleIn ms) (hl : l.Follows) :
    (ConsoleConfig.declaration l).In ms (o.applyTo {}).console := by
  have henabled := h.enabled.field (f := ⟨_, _, ConsoleConfig.defaultEnabled⟩)
    fun _ _ h => h.read hl
  have hoffset := h.offset.field_map (f := ⟨_, _, ConsoleConfig.defaultOffset⟩)
    fun _ _ h => h.read hl
  exact .field (.field (.record _) henabled) hoffset

/-- A section that is left out is read as one that is empty. -/
theorem SectionIn.field {S : Type} {d : Declaration S} {name : String} {fields : Members → Prop}
    {a : S} (h : SectionIn ms name fields) (hl : l.Follows)
    (hreads : ∀ inner, fields inner → Named inner ∧ d.In inner a) :
    Field.In ⟨name, l.record d, d.defaults⟩ ms a := by
  rcases h with ⟨hnone, h⟩ | ⟨inner, honce, h⟩
  · obtain ⟨hnames, hin⟩ := hreads [] h
    have ha := hl.record hnames hin
    rw [hl.record hnames d.in_nil] at ha
    exact Option.some.inj ha ▸ .absent hnone
  · obtain ⟨hnames, hin⟩ := hreads inner h
    exact .written honce (hl.record hnames hin)

/-- The sections are read as their overlay over the defaults. -/
theorem WrittenIn.reads (h : o.WrittenIn ms) (hl : l.Follows) :
    (Config.declaration l).In ms (o.applyTo {}) := by
  have hgeneral := h.general.field hl fun _ h => ⟨h.names, h.reads hl⟩
  have hmemory := h.memory.field hl fun _ h => ⟨h.names, h.reads hl⟩
  have htlb := h.tlb.field hl fun _ h => ⟨h.names, h.reads hl⟩
  have hconsole := h.console.field hl fun _ h => ⟨h.names, h.reads hl⟩
  rw [GeneralConfig.defaults_declaration] at hgeneral
  rw [MemoryConfig.defaults_declaration] at hmemory
  rw [TlbConfig.defaults_declaration] at htlb
  rw [ConsoleConfig.defaults_declaration] at hconsole
  exact .field (.field (.field (.field (.record _) hgeneral) hmemory) htlb) hconsole

end Overlay

end Config

end Processor64
