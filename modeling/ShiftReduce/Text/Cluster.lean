import ShiftReduce.Text.BreakClass

/-! # Clusters — what readers take for one character

    A text falls apart into clusters.  Whether a code point joins the cluster
    before it depends on its class and on what the cluster ends with. -/

namespace ShiftReduce

namespace Text

/-- What a cluster ends with, as far as joining goes. -/
inductive ClusterEnd where
  | carriageReturn
  | control
  | initial
  | medial
  | final
  | leader
  /-- A picture, perhaps with marks. -/
  | picture
  /-- A picture, perhaps with marks, and a joiner. -/
  | joinedPicture
  /-- The first letter of a flag. -/
  | halfFlag
  | other
  deriving DecidableEq, Repr

namespace ClusterEnd

/-- Whether a code point joins a cluster.  Controls join nothing but a line
    feed the carriage return before it; marks and joiners join anything else. -/
def accepts : ClusterEnd → BreakClass → Bool
  | .carriageReturn, .lineFeed => true
  | .carriageReturn, _ => false
  | .control, _ => false
  | _, .carriageReturn => false
  | _, .lineFeed => false
  | _, .control => false
  | _, .extender => true
  | _, .joiner => true
  | _, .spacingMark => true
  | .leader, _ => true
  | .initial, .initial => true
  | .initial, .medial => true
  | .initial, .openBlock => true
  | .initial, .closedBlock => true
  | .medial, .medial => true
  | .medial, .final => true
  | .final, .final => true
  | .joinedPicture, .picture => true
  | .halfFlag, .flagLetter => true
  | _, _ => false

/-- What a cluster ends with once a code point has come behind. -/
def after : ClusterEnd → BreakClass → ClusterEnd
  | _, .carriageReturn => .carriageReturn
  | _, .lineFeed => .control
  | _, .control => .control
  | _, .initial => .initial
  | _, .medial => .medial
  | _, .openBlock => .medial
  | _, .final => .final
  | _, .closedBlock => .final
  | _, .leader => .leader
  | _, .picture => .picture
  | .picture, .extender => .picture
  | .picture, .joiner => .joinedPicture
  | .halfFlag, .flagLetter => .other
  | _, .flagLetter => .halfFlag
  | _, _ => .other

end ClusterEnd

/-- The clusters of a text behind the beginning of one, which is given from
    back to front. -/
def clustersFrom (ending : ClusterEnd) (begun : List Char) : List Char → List (List Char)
  | [] => [begun.reverse]
  | c :: cs =>
    let k := BreakClass.of c
    if ending.accepts k then clustersFrom (ending.after k) (c :: begun) cs
    else begun.reverse :: clustersFrom (ending.after k) [c] cs

/-- The clusters of a text. -/
def clusters : List Char → List (List Char)
  | [] => []
  | c :: cs => clustersFrom (ClusterEnd.other.after (BreakClass.of c)) [c] cs

/-- Nothing is lost: the clusters make up the text. -/
theorem flatten_clustersFrom (ending : ClusterEnd) (begun cs : List Char) :
    (clustersFrom ending begun cs).flatten = begun.reverse ++ cs := by
  induction cs generalizing ending begun with
  | nil => simp [clustersFrom]
  | cons c cs ih =>
    simp only [clustersFrom]
    split
    · rw [ih]
      simp
    · rw [List.flatten_cons, ih]
      simp

/-- Nothing is lost: the clusters make up the text. -/
theorem flatten_clusters (cs : List Char) : (clusters cs).flatten = cs := by
  cases cs with
  | nil => rfl
  | cons c cs =>
    simp only [clusters]
    rw [flatten_clustersFrom]
    simp

end Text

end ShiftReduce
