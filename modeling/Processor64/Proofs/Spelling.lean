import Mathlib.Data.List.Nodup
import Processor64.Instruction.Text
import Processor64.Proofs.Numerals

/-!
# Telling instructions apart by their texts

A text tells the instruction that it is of (`written_of_text`), as far as it shows it
(`Instruction.written`). It tells its mnemonic, which ends at the first space, and its operands,
which end at commas (`form_of_text`). No two mnemonics are the same (`nodup_bares`), so a mnemonic
tells everything but the operands (`bare_of_mnemonic`), and every operand tells itself.
-/

namespace Processor64.Instruction

/-! ## Operands -/

variable {c : Char} {r s : Register}

@[simp]
theorem registerText_inj : registerText r = registerText s ↔ r = s := by
  rw [registerText, registerText, String.append_right_inj, Numeral.decimal_inj, BitVec.toNat_inj]

theorem notMem_registerText (hr : c ≠ 'R') (hc : ∀ d : Nat, d.digitChar ≠ c) (r : Register) :
    c ∉ (registerText r).toList := by
  have hdigits := Numeral.notMem_decimal (n := r.toNat) hc
  simp [registerText, hr, hdigits]

theorem registerText_ne_integer {i : Int} : registerText r ≠ Numeral.integer i := by
  intro h
  have hr : 'R' ∉ (Numeral.integer i).toList :=
    Numeral.notMem_integer (by decide) (fun _ => Nat.digitChar_ne 'R' rfl) i
  simp [← h, registerText] at hr

/-- An opening bracket ends what stands before it. -/
theorem bracketed_inj {x y x' y' : String} (hx : '(' ∉ x.toList) (hx' : '(' ∉ x'.toList) :
    x ++ "(" ++ y = x' ++ "(" ++ y' ↔ x = x' ∧ y = y' := by
  rw [← String.toList_inj, ← @String.toList_inj x, ← @String.toList_inj y]
  simpa using Numeral.append_cons_inj hx hx'

theorem notMem_integer_bracket (i : Int) : '(' ∉ (Numeral.integer i).toList :=
  Numeral.notMem_integer (by decide) (fun _ => Nat.digitChar_ne '(' rfl) i

theorem notMem_registerText_bracket (r : Register) : '(' ∉ (registerText r).toList :=
  notMem_registerText (by decide) (fun _ => Nat.digitChar_ne '(' rfl) r

variable {r' s' : Register} {n : Nat} {v v' : BitVec n}

@[simp]
theorem indexed_inj :
    registerText r ++ "(" ++ registerText s = registerText r' ++ "(" ++ registerText s' ↔
      r = r' ∧ s = s' := by
  rw [bracketed_inj (notMem_registerText_bracket _) (notMem_registerText_bracket _),
    registerText_inj, registerText_inj]

@[simp]
theorem displaced_inj :
    Numeral.integer v.toInt ++ "(" ++ registerText s =
      Numeral.integer v'.toInt ++ "(" ++ registerText s' ↔ v = v' ∧ s = s' := by
  rw [bracketed_inj (notMem_integer_bracket _) (notMem_integer_bracket _), Numeral.integer_inj,
    BitVec.toInt_inj, registerText_inj]

theorem indexed_ne_displaced :
    registerText r ++ "(" ++ registerText s ≠
      Numeral.integer v.toInt ++ "(" ++ registerText s' := by
  rw [ne_eq, bracketed_inj (notMem_registerText_bracket _) (notMem_integer_bracket _)]
  exact fun h => registerText_ne_integer h.1

/-- A second operand is read off its text. -/
@[simp]
theorem operandText_inj {x y : Operand} : operandText x = operandText y ↔ x = y := by
  refine ⟨fun h => ?_, congrArg _⟩
  cases x <;> cases y
  case register.register => simpa [operandText] using h
  case immediate.immediate => simpa [operandText, BitVec.toInt_inj] using h
  all_goals simpa [operandText, registerText] using congrArg String.toList h

/-- An address operand is read off its text. -/
@[simp]
theorem memoryText_inj {x y : MemoryOperand} : memoryText x = memoryText y ↔ x = y := by
  refine ⟨fun h => ?_, congrArg _⟩
  cases x <;> cases y <;> simp only [memoryText, String.append_left_inj] at h
  case indexed.indexed => rw [(indexed_inj.mp h).1, (indexed_inj.mp h).2]
  case displaced.displaced => rw [(displaced_inj.mp h).1, (displaced_inj.mp h).2]
  case indexed.displaced => exact absurd h indexed_ne_displaced
  case displaced.indexed => exact absurd h.symm indexed_ne_displaced

@[simp]
theorem distanceText_inj : distanceText v = distanceText v' ↔ v = v' := by
  rw [distanceText, distanceText, Numeral.distance_inj, ← BitVec.toInt_inj]
  omega

@[simp]
theorem bitText_inj {x y : TestedBit} : bitText x = bitText y ↔ x = y := by
  have hname : ∀ n, Numeral.decimal n ≠ "SHAMT" := by
    intro n h
    have hs : 'S' ∉ (Numeral.decimal n).toList :=
      Numeral.notMem_decimal fun _ => Nat.digitChar_ne 'S' rfl
    simp [h] at hs
  refine ⟨fun h => ?_, congrArg _⟩
  cases x <;> cases y
  case fixed.fixed => simpa [bitText, BitVec.toNat_inj] using h
  case shiftAmount.shiftAmount => rfl
  case fixed.shiftAmount => exact absurd h (hname _)
  case shiftAmount.fixed => exact absurd h.symm (hname _)

/-- A control register is read off its name. -/
@[simp]
theorem controlText_inj {c d : BitVec 4} : controlText c = controlText d ↔ c = d := by
  have h : ∀ c d, controlText c = controlText d → c = d := by decide +kernel
  exact ⟨h c d, congrArg _⟩

/-! ## Mnemonics -/

end Instruction

/-- The modifiers that the text of an operation shows. -/
def BinaryOp.written (op : BinaryOp) (m : Modifiers) : Modifiers :=
  match op with
  | add | subtract => ⟨false, false⟩
  | xor => ⟨false, m.negate⟩
  | and | or => m

namespace Instruction

/-- The instruction as its text shows it. -/
def written : Instruction → Instruction
  | binary op r b x m => binary op r b x (op.written m)
  | memoryBinary op w r x m => memoryBinary op w r x (op.written m)
  | trap _ n => trap 0 n
  | i => i

/-- The instruction as its mnemonic shows it, with zeros for what stands in its operands. -/
def bare : Instruction → Instruction
  | nop => nop
  | binary op _ _ _ m => binary op 0 0 (.immediate 0) (op.written m)
  | compare c _ _ _ => compare c 0 0 (.immediate 0)
  | bitField op _ _ _ _ => bitField op 0 0 0 0
  | doubleShift .. => doubleShift 0 0 0
  | shiftAdd left distance _ _ _ => shiftAdd left distance 0 0 0
  | loadImmediate part _ _ => loadImmediate part 0 0
  | loadOffset .. => loadOffset 0 0 0
  | memoryBinary op w _ _ m => memoryBinary op w 0 (.displaced 0 0) (op.written m)
  | memoryCompare c w _ _ => memoryCompare c w 0 (.displaced 0 0)
  | load signed w _ _ => load signed w 0 (.displaced 0 0)
  | store w _ _ => store w 0 (.displaced 0 0)
  | loadReserve w _ _ => loadReserve w 0 (.displaced 0 0)
  | storeConditional w _ _ => storeConditional w 0 (.displaced 0 0)
  | branch .. => branch 0 0
  | branchRegister .. => branchRegister 0 0
  | branchIndexed .. => branchIndexed 0 0 0
  | branchBit sense _ _ _ => branchBit sense 0 .shiftAmount 0
  | branchCompare c _ _ _ => branchCompare c 0 0 0
  | branchTable .. => branchTable 0 0
  | moveFromControl .. => moveFromControl 0 0
  | moveToControl .. => moveToControl 0 0
  | physicalAddress .. => physicalAddress 0 0
  | probe kind _ _ => probe kind 0 0
  | tlbInsert .. => tlbInsert 0 0 0
  | tlbPurge _ => tlbPurge 0
  | tlbReset => tlbReset
  | cacheFlush _ => cacheFlush 0
  | cachePurge _ => cachePurge 0
  | modifyStatus on _ _ => modifyStatus on 0 0
  | returnFromTrap => returnFromTrap
  | trap .. => trap 0 0
  | halt => halt
  | diagnose _ => diagnose 0

/-- The operations with the modifiers that they may be written with. -/
def writtenOps : List (BinaryOp × Modifiers) :=
  [(.add, ⟨false, false⟩), (.subtract, ⟨false, false⟩), (.xor, ⟨false, false⟩),
    (.xor, ⟨false, true⟩)] ++
  [.and, .or].flatMap fun op =>
    [(op, ⟨false, false⟩), (op, ⟨false, true⟩), (op, ⟨true, false⟩), (op, ⟨true, true⟩)]

def conditions : List Condition :=
  [.equal, .notEqual, .less, .lessOrEqual, .greater, .greaterOrEqual, .lessUnsigned,
    .greaterOrEqualUnsigned]

/-- One instruction for every mnemonic of a calculation. -/
def bareCalculations : List Instruction :=
  [nop, doubleShift 0 0 0, loadOffset 0 0 0] ++
  writtenOps.map (fun o => binary o.1 0 0 (.immediate 0) o.2) ++
  conditions.map (compare · 0 0 (.immediate 0)) ++
  [.extract, .extractSigned, .deposit, .depositZero].map (bitField · 0 0 0 0) ++
  [.one, .two, .three].flatMap (fun d => [shiftAdd false d 0 0 0, shiftAdd true d 0 0 0]) ++
  [.low, .middle, .upper, .top].map (loadImmediate · 0 0)

/-- One instruction for every mnemonic of an access of a width. -/
def bareAccesses (w : Width) : List Instruction :=
  [load false w 0 (.displaced 0 0), load true w 0 (.displaced 0 0), store w 0 (.displaced 0 0),
    loadReserve w 0 (.displaced 0 0), storeConditional w 0 (.displaced 0 0)] ++
  writtenOps.map (fun o => memoryBinary o.1 w 0 (.displaced 0 0) o.2) ++
  conditions.map (memoryCompare · w 0 (.displaced 0 0))

/-- One instruction for every mnemonic of a branch. -/
def bareBranches : List Instruction :=
  [branch 0 0, branchRegister 0 0, branchIndexed 0 0 0, branchBit false 0 .shiftAmount 0,
    branchBit true 0 .shiftAmount 0, branchTable 0 0] ++
  conditions.map (branchCompare · 0 0 0)

/-- One instruction for every mnemonic that controls the system. -/
def bareControls : List Instruction :=
  [moveFromControl 0 0, moveToControl 0 0, physicalAddress 0 0, probe none 0 0,
    probe (some .read) 0 0, probe (some .write) 0 0, probe (some .execute) 0 0, tlbInsert 0 0 0,
    tlbPurge 0, tlbReset, cacheFlush 0, cachePurge 0, modifyStatus false 0 0,
    modifyStatus true 0 0, returnFromTrap, trap 0 0, halt, diagnose 0]

def bares : List Instruction :=
  bareCalculations ++ [.byte, .half, .word, .double].flatMap bareAccesses ++ bareBranches ++
    bareControls

theorem mem_writtenOps (op : BinaryOp) (m : Modifiers) : (op, op.written m) ∈ writtenOps := by
  rcases m with ⟨_ | _, _ | _⟩ <;> cases op <;> decide

theorem mem_conditions (c : Condition) : c ∈ conditions := by cases c <;> decide

theorem mem_bares_of_access {w : Width} {i : Instruction} (h : i ∈ bareAccesses w) :
    i ∈ bares := by
  have hw : w ∈ [Width.byte, .half, .word, .double] := by cases w <;> decide
  simp only [bares, List.mem_append, List.mem_flatMap]
  exact .inl (.inl (.inr ⟨w, hw, h⟩))

/-- Every instruction without its operands is in the list. -/
theorem bare_mem (i : Instruction) : i.bare ∈ bares := by
  cases i
  case memoryBinary op w r x m =>
    exact mem_bares_of_access (w := w) (by simp [bareAccesses, bare, mem_writtenOps])
  case memoryCompare c w r x =>
    exact mem_bares_of_access (w := w) (by simp [bareAccesses, bare, mem_conditions])
  case load signed w r x =>
    exact mem_bares_of_access (w := w) (by cases signed <;> simp [bareAccesses, bare])
  case store w r x | loadReserve w r x | storeConditional w r x =>
    exact mem_bares_of_access (w := w) (by simp [bareAccesses, bare])
  all_goals simp only [bares, List.mem_append]
  case nop | binary | compare | doubleShift | loadOffset =>
    exact .inl (.inl (.inl (by simp [bareCalculations, bare, mem_writtenOps, mem_conditions])))
  case bitField op _ _ _ _ | loadImmediate op _ _ =>
    exact .inl (.inl (.inl (by cases op <;> simp [bareCalculations, bare])))
  case shiftAdd left distance _ _ _ =>
    exact .inl (.inl (.inl (by cases left <;> cases distance <;> simp [bareCalculations, bare])))
  case branchBit sense _ _ _ =>
    exact .inl (.inr (by cases sense <;> simp [bareBranches, bare]))
  case branch | branchRegister | branchIndexed | branchCompare | branchTable =>
    exact .inl (.inr (by simp [bareBranches, bare, mem_conditions]))
  case probe kind _ _ =>
    exact .inr (by rcases kind with _ | _ | _ | _ <;> simp [bareControls, bare])
  case modifyStatus on _ _ => exact .inr (by cases on <;> simp [bareControls, bare])
  all_goals exact .inr (by simp [bareControls, bare])

/-- The bytes of a text, which are quicker to look at than its characters. -/
def bytes (s : String) : List UInt8 := s.toByteArray.data.toList

/-- The bytes of a text as the digits of one number. -/
def textNumber (s : String) : Nat := (bytes s).foldl (fun n b => 256 * n + b.toNat) 0

theorem nodup_bares : (bares.map fun i => textNumber i.form.1).Nodup := by decide +kernel

theorem mem_bytes_of_space {s : String} (h : ' ' ∈ s.toList) : 32 ∈ bytes s := by
  obtain ⟨as, bs, hs⟩ := List.append_of_mem h
  have hs : s = String.ofList as ++ " " ++ String.ofList bs := String.toList_inj.mp (by simp [hs])
  have hspace : " ".toByteArray.data.toList = [32] := by decide
  rw [hs, bytes, String.toByteArray_append, String.toByteArray_append]
  simp [hspace]

theorem binaryMnemonic_written (op : BinaryOp) (m : Modifiers) :
    binaryMnemonic op (op.written m) = binaryMnemonic op m := by
  cases op <;> rfl

theorem mnemonic_bare (i : Instruction) : i.bare.form.1 = i.form.1 := by
  cases i
  case binary op _ _ _ m => exact binaryMnemonic_written op m
  case memoryBinary op w _ _ m =>
    exact congrArg (· ++ widthSuffix w) (binaryMnemonic_written op m)
  all_goals rfl

theorem bare_of_mnemonic {i j : Instruction} (h : i.form.1 = j.form.1) : i.bare = j.bare := by
  refine List.inj_on_of_nodup_map nodup_bares i.bare_mem j.bare_mem ?_
  rw [mnemonic_bare, mnemonic_bare, h]

theorem notMem_mnemonic (i : Instruction) : ' ' ∉ i.form.1.toList := by
  have h : ∀ j ∈ bares, 32 ∉ bytes j.form.1 := by decide +kernel
  rw [← mnemonic_bare]
  exact fun hspace => h _ i.bare_mem (mem_bytes_of_space hspace)

/-! ## Texts -/

theorem notMem_operands (i : Instruction) : ∀ x ∈ i.form.2, ',' ∉ x.toList := by
  have hdigits : ∀ d : Nat, d.digitChar ≠ ',' := fun _ => Nat.digitChar_ne ',' rfl
  have hregister := notMem_registerText (c := ',') (by decide) hdigits
  have hinteger := Numeral.notMem_integer (c := ',') (by decide) hdigits
  have hdistance := Numeral.notMem_distance (c := ',') (by decide) (by decide) hdigits
  have hdecimal := fun n => Numeral.notMem_decimal (n := n) hdigits
  have hhex := fun n => Numeral.notMem_hex (n := n) (by decide) hdigits
  have hcontrol : ∀ n, ',' ∉ (controlText n).toList := by decide +kernel
  have hoperand : ∀ x, ',' ∉ (operandText x).toList := by
    rintro (_ | _) <;> simp [operandText, hregister, hinteger]
  have hmemory : ∀ x, ',' ∉ (memoryText x).toList := by
    rintro (_ | _) <;> simp [memoryText, hregister, hinteger]
  have hbit : ∀ x, ',' ∉ (bitText x).toList := by
    rintro (_ | _) <;> simp [bitText, hdecimal]
  cases i <;> simp [form, distanceText, hregister, hinteger, hdistance, hdecimal, hhex, hcontrol,
    hoperand, hmemory, hbit]

/-- Operands without commas can be told from what is between the commas. -/
theorem intercalate_inj {xs ys : List String} (hx : ∀ x ∈ xs, ',' ∉ x.toList)
    (hy : ∀ y ∈ ys, ',' ∉ y.toList) (hxs : xs ≠ []) (hys : ys ≠ [])
    (h : ", ".intercalate xs = ", ".intercalate ys) : xs = ys := by
  induction xs generalizing ys with
  | nil => exact absurd rfl hxs
  | cons x xs ih =>
    obtain ⟨y, ys, rfl⟩ := List.exists_cons_of_ne_nil hys
    have hx₁ := hx x List.mem_cons_self
    have hy₁ := hy y List.mem_cons_self
    rw [← String.toList_inj] at h
    rcases xs with _ | ⟨x', xs⟩ <;> rcases ys with _ | ⟨y', ys⟩ <;>
      simp only [String.intercalate_singleton, String.intercalate_cons_cons,
        String.toList_append, List.append_assoc] at h
    · rw [String.toList_inj.mp h]
    · exact absurd (h ▸ by simp) hx₁
    · exact absurd (h ▸ by simp) hy₁
    · obtain ⟨hhead, hrest⟩ := (Numeral.append_cons_inj hx₁ hy₁).mp h
      have htail := ih (fun _ hz => hx _ (.tail _ hz)) (fun _ hz => hy _ (.tail _ hz))
        (by simp) (by simp) (String.toList_inj.mp (List.cons.inj hrest).2)
      rw [String.toList_inj.mp hhead, htail]

/-- A text is the mnemonic alone, or goes on with its operands after a space. -/
theorem text_cases (i : Instruction) :
    (i.form.2 = [] ∧ i.text.toList = i.form.1.toList) ∨
      (i.form.2 ≠ [] ∧
        i.text.toList = i.form.1.toList ++ ' ' :: (", ".intercalate i.form.2).toList) := by
  unfold text
  rcases i.form with ⟨mnemonic, _ | ⟨x, xs⟩⟩
  · exact .inl ⟨rfl, rfl⟩
  · exact .inr ⟨by simp, by simp⟩

/-- A text has one form. -/
theorem form_of_text {i j : Instruction} (h : i.text = j.text) : i.form = j.form := by
  have hi := i.notMem_mnemonic
  have hj := j.notMem_mnemonic
  rcases i.text_cases with ⟨hop, ht⟩ | ⟨hop, ht⟩ <;>
    rcases j.text_cases with ⟨hop', ht'⟩ | ⟨hop', ht'⟩ <;> rw [h, ht'] at ht
  · exact Prod.ext (String.toList_inj.mp ht.symm) (hop.trans hop'.symm)
  · exact absurd (ht ▸ by simp) hi
  · exact absurd (ht ▸ by simp) hj
  · obtain ⟨hmnemonic, hoperands⟩ := (Numeral.append_cons_inj hj hi).mp ht
    refine Prod.ext (String.toList_inj.mp hmnemonic.symm) ?_
    exact intercalate_inj i.notMem_operands j.notMem_operands hop hop'
      (String.toList_inj.mp hoperands.symm)

/-- A form is of one instruction, but for what goes unwritten. -/
theorem written_of_form {i j : Instruction} (h : i.form = j.form) : i.written = j.written := by
  obtain ⟨hmnemonic, hoperands⟩ := Prod.mk.inj h
  have hbare := bare_of_mnemonic hmnemonic
  clear hmnemonic h
  -- two constructors that differ have different mnemonics
  cases i <;> cases j <;> first | (cases hbare; done) | skip
  case binary.binary =>
    obtain ⟨rfl, -, -, -, hm⟩ := binary.inj hbare
    simp_all [written]
  case memoryBinary.memoryBinary =>
    obtain ⟨rfl, rfl, -, -, hm⟩ := memoryBinary.inj hbare
    simp_all [written]
  all_goals simp_all [bare, written, BitVec.toNat_inj, BitVec.toInt_inj]

/-- Two instructions with one text differ only in what texts do not show. -/
theorem written_of_text {i j : Instruction} (h : i.text = j.text) : i.written = j.written :=
  written_of_form (form_of_text h)

end Processor64.Instruction
