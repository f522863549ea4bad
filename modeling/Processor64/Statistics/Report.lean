import Processor64.Statistics
import Processor64.Statistics.Percentage
import Processor64.Text.Column

/-!
# Reports of statistics

Statistics as a table for readers, and as an object with one member for each count, written on one
line or indented by two blanks.
-/

namespace Processor64

/-- A count, or one count for each trap code. -/
inductive Figure where
  | single (n : Nat)
  | several (ns : List Nat)

namespace Statistics

/-- A line of one character across the report. -/
def rule (c : Char) : String := String.ofList (List.replicate 58 c)

/-- The lines of the table. Trap codes without a trap have no line. -/
def lines (s : Statistics) : List String :=
  let count (name : String) (n : Nat) := Column.left 25 name ++ Numeral.decimal n
  let share (name : String) (n : Nat) :=
    count name n ++ " (" ++ percentText n s.retired ++ "%)"
  let trapLines := TrapCode.all.tail.filterMap fun code =>
    let n := s.trapsOf code
    if n = 0 then none
    else some ("  trap." ++ Column.left 17 code.name ++ " " ++ Numeral.decimal n)
  [rule '=', "TWIN64 EXECUTION STATISTICS", rule '=',
    count "cycles" s.cycles,
    count "insts_retired" s.retired,
    rule '-', "INSTRUCTION MIX",
    share "  op.alu" s.arithmetic,
    share "  op.mem" s.memory,
    share "  op.branch" s.branch,
    share "  op.system" s.system,
    rule '-', "MEMORY",
    count "  mem.loads" s.loads,
    count "  mem.stores" s.stores,
    count "  mem.stc_failures" s.conditionalFailures,
    count "  tlb.hits" s.tlbHits,
    count "  tlb.misses" s.tlbMisses,
    count "  branch.taken" s.branchesTaken,
    rule '-', "TRAPS",
    count "  trap.total" s.trapsTotal,
    count "  trap.vectored" s.trapsVectored] ++ trapLines ++ [rule '=']

/-- The report, without a line break after its last line. -/
def text (s : Statistics) : String := "\n".intercalate s.lines

/-- The counts by name. -/
def figures (s : Statistics) : List (String × Figure) :=
  [("cycles", .single s.cycles),
    ("instructions_retired", .single s.retired),
    ("inst_alu", .single s.arithmetic),
    ("inst_mem", .single s.memory),
    ("inst_branch", .single s.branch),
    ("inst_system", .single s.system),
    ("loads", .single s.loads),
    ("stores", .single s.stores),
    ("branches_taken", .single s.branchesTaken),
    ("store_conditional_failures", .single s.conditionalFailures),
    ("traps", .several s.traps.toList),
    ("traps_vectored", .single s.trapsVectored),
    ("tlb_hits", .single s.tlbHits),
    ("tlb_misses", .single s.tlbMisses)]

/-- The object on one line without blanks. -/
def compactObject (s : Statistics) : String :=
  let value : Figure → String
    | .single n => Numeral.decimal n
    | .several ns => "[" ++ ",".intercalate (ns.map Numeral.decimal) ++ "]"
  "\x7b" ++ ",".intercalate (s.figures.map fun (name, f) => "\"" ++ name ++ "\":" ++ value f) ++
    "\x7d"

/-- The object with a line for each member and for each number in a list. -/
def indentedObject (s : Statistics) : String :=
  let value : Figure → String
    | .single n => Numeral.decimal n
    | .several ns =>
      "[\n" ++ ",\n".intercalate (ns.map fun n => "    " ++ Numeral.decimal n) ++ "\n  ]"
  "\x7b\n" ++
    ",\n".intercalate (s.figures.map fun (name, f) => "  \"" ++ name ++ "\": " ++ value f) ++
    "\n\x7d"

end Statistics

end Processor64
