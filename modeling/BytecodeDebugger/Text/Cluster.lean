import BytecodeDebugger.Text.ClusterClass

/-!
# Clusters

A text cut into what a reader takes for its characters (`clusters`).  A cut falls between any two
characters, except where `joins` says that the second one belongs to the cluster of the first.
That mostly depends on the classes of the two; where more of the text has a say, `Tie` holds what
has to be known of it.  The rules are those of Unicode's extended grapheme clusters.
-/

namespace BytecodeDebugger.Text

/-- How a cluster ends, as far as a later character can be tied to its end. -/
inductive Tie where
  /-- With nothing that could be tied. -/
  | loose
  /-- With the first half of a flag. -/
  | flagHalf
  /-- With a picture and marks on it. -/
  | picture
  /-- With a picture, marks on it and one joiner. -/
  | joinedPicture
  /-- With a consonant and marks on it. -/
  | consonant
  /-- With a consonant and marks on it, one of which is a linker. -/
  | linkedConsonant
deriving DecidableEq, Repr

/-- Whether a character belongs to the cluster before it, which ends with a character of class
`before` and as `tie` says. -/
def joins (before : ClusterClass) (tie : Tie) (after : ClusterClass) : Bool :=
  match before, after with
  | .carriageReturn, .lineFeed => true
  -- A syllable that is written in parts.
  | .leading, .leading | .leading, .vowel | .leading, .openSyllable | .leading, .closedSyllable
  | .openSyllable, .vowel | .openSyllable, .trailing | .vowel, .vowel | .vowel, .trailing
  | .closedSyllable, .trailing | .trailing, .trailing => true
  | before, after =>
    if before.isControl || after.isControl then false
    else if after.isAttached || before = .prepended then true
    else match after with
      | .flagHalf => tie = .flagHalf
      | .picture => tie = .joinedPicture
      | .consonant => tie = .linkedConsonant
      | _ => false

/-- How a cluster ends that ended as `tie` says and has grown by a character, or that begins with
the character, in which case it was `loose`. -/
def Tie.extend (tie : Tie) : ClusterClass → Tie
  | .flagHalf => if tie = flagHalf then loose else flagHalf
  | .picture => picture
  | .consonant => consonant
  | .extend => match tie with
    | picture => picture
    | consonant => consonant
    | linkedConsonant => linkedConsonant
    | _ => loose
  | .linker => match tie with
    | picture => picture
    | consonant | linkedConsonant => linkedConsonant
    | _ => loose
  | .nonJoiner => if tie = picture then picture else loose
  | .joiner => match tie with
    | picture => joinedPicture
    | consonant => consonant
    | linkedConsonant => linkedConsonant
    | _ => loose
  | _ => loose

/-- The clusters of a list of characters, in order. -/
def clusters : List Char → List (List Char)
  | [] => []
  | c :: cs => go [c] (.of c) (Tie.loose.extend (.of c)) cs
where
  /-- Reads on, with `cluster` the characters of the current cluster, last first, whose last one is
  of class `before`, and which ends as `tie` says. -/
  go (cluster : List Char) (before : ClusterClass) (tie : Tie) : List Char → List (List Char)
    | [] => [cluster.reverse]
    | c :: cs =>
      let after := ClusterClass.of c
      if joins before tie after then go (c :: cluster) after (tie.extend after) cs
      else cluster.reverse :: go [c] after (Tie.loose.extend after) cs

end BytecodeDebugger.Text
