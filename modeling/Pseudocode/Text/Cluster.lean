import Pseudocode.Text.Basic
import Pseudocode.Text.ClusterClass

set_option autoImplicit false

namespace Pseudocode.Text

/-- What the characters so far end in, where it decides more than the last character does. -/
inductive Trail where
  | plain
  | pictograph
  | joined
  | consonant
  | linked
  | flag
deriving DecidableEq, Repr

namespace Trail

def next : Trail → ClusterClass → Trail
  | _, .pictograph => .pictograph
  | _, .consonant => .consonant
  | .flag, .flag => .plain
  | _, .flag => .flag
  | .pictograph, .extend | .pictograph, .linker | .pictograph, .nonJoiner => .pictograph
  | .pictograph, .joiner => .joined
  | .consonant, .extend | .consonant, .joiner => .consonant
  | .consonant, .linker => .linked
  | .linked, .extend | .linked, .linker | .linked, .joiner => .linked
  | _, _ => .plain

/-- Whether a character of the class, which would else begin a cluster, belongs to the trail. -/
def binds : Trail → ClusterClass → Bool
  | .joined, .pictograph | .linked, .consonant | .flag, .flag => true
  | _, _ => false

end Trail

structure ClusterContext where
  last : ClusterClass := .control
  trail : Trail := .plain
deriving DecidableEq, Repr

namespace ClusterContext

def next (x : ClusterContext) (k : ClusterClass) : ClusterContext :=
  ⟨k, x.trail.next k⟩

def joins (x : ClusterContext) (k : ClusterClass) : Bool :=
  if x.last.isControl || k.isControl then x.last == .carriageReturn && k == .lineFeed
  else x.last == .prepend || k.isMark || x.last.continues k || x.trail.binds k

/-- The rest of the cluster that has begun, and the clusters after it. -/
def cut (x : ClusterContext) : Text → Text × List Text
  | [] => ([], [])
  | c :: t =>
      let k := ClusterClass.ofChar c
      let (here, later) := cut (x.next k) t
      if x.joins k then (c :: here, later) else ([], (c :: here) :: later)

theorem flatten_cut (x : ClusterContext) (t : Text) : (x.cut t).1 ++ (x.cut t).2.flatten = t := by
  induction t generalizing x with
  | nil => rfl
  | cons c t ih =>
      have rest := ih (x.next (ClusterClass.ofChar c))
      by_cases same : x.joins (ClusterClass.ofChar c) <;> simp [cut, same, rest]

theorem cut_start (t : Text) : (cut {} t).1 = [] := by
  cases t with
  | nil => rfl
  | cons c t => simp [cut, joins, ClusterClass.isControl]

end ClusterContext

/-- The text cut into clusters, each of which a reader sees as one character. -/
def clusters (t : Text) : List Text :=
  (ClusterContext.cut {} t).2

theorem flatten_clusters (t : Text) : (clusters t).flatten = t := by
  have all := ClusterContext.flatten_cut {} t
  simpa [clusters, ClusterContext.cut_start] using all

end Pseudocode.Text
