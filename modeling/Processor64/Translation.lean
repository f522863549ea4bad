import Processor64.StatusWord
import Processor64.Tlb
import Processor64.Trap

/-!
# Address translation

Addresses in the I/O window, and all addresses while the status word does not translate, stand for
themselves. Any other address needs a mapping for its page, and an access needs the rights of that
mapping: the right of its kind and, in user mode, the user right and a matching protection id.
-/

namespace Processor64

/-- The modes and protection ids that an access is judged by. -/
structure AccessContext where
  status : StatusWord
  protectionIds : List (BitVec 32)

namespace Mapping

/-- Whether the rights of a page include a kind of access. -/
def allows (m : Mapping) : AccessKind → Bool
  | .read => m.rights.getLsbD 0
  | .write => m.rights.getLsbD 1
  | .execute => m.rights.getLsbD 2

/-- Whether the page is open to unprivileged programs. -/
def userAccessible (m : Mapping) : Bool := m.rights.getLsbD 3

/-- Whether an access is granted: a privileged program needs the right alone. -/
def grants (m : Mapping) (k : AccessKind) (c : AccessContext) : Bool :=
  m.allows k &&
    (c.status.privileged ||
      (m.userAccessible && (m.protectionId == 0 || c.protectionIds.contains m.protectionId)))

end Mapping

/-- Whether an address stands for itself. -/
def AccessContext.bypasses (c : AccessContext) (a : Word) : Bool :=
  a.inIoWindow || !c.status.translates

namespace Tlb

/-- The physical address of an access, or the trap that refuses it. -/
def translate (t : Tlb) (a : Word) (k : AccessKind) (c : AccessContext) : Except Trap Word × Tlb :=
  if c.bypasses a then (.ok a, t)
  else
    match t.lookup a with
    | (none, t) => (.error (.unmapped a k), t)
    | (some m, t) => (if m.grants k c then .ok (m.translate a) else .error (.denied a k), t)

/-- The physical address of an address, without a judgement of rights. -/
def resolve (t : Tlb) (a : Word) (c : AccessContext) : Except Trap Word × Tlb :=
  if c.bypasses a then (.ok a, t)
  else
    match t.lookup a with
    | (none, t) => (.error (.unmapped a .read), t)
    | (some m, t) => (.ok (m.translate a), t)

/-- Whether an access would be translated, without a trace of the question. -/
def probe (t : Tlb) (a : Word) (k : AccessKind) (c : AccessContext) : Bool :=
  c.bypasses a || (t.peek a).any (·.grants k c)

end Tlb

end Processor64
