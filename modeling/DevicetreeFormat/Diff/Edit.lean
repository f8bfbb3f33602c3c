/-!
# Edits

How one list of lines becomes another: runs of lines that stay, and runs that
are replaced. The edits follow the longest common run of lines, and then the
longest common runs before and after it. Lines that are very frequent in a long
text do not start a common run, they only extend one.
-/

namespace DevicetreeFormat.Diff

set_option autoImplicit false

inductive Edit
  | keep (lines : List String)
  | change (old new : List String)
deriving DecidableEq

namespace Edit

def old : Edit → List String
  | keep lines => lines
  | change old _ => old

def new : Edit → List String
  | keep lines => lines
  | change _ new => new

end Edit

structure Match where
  old : Nat
  new : Nat
  size : Nat

/-- The number of lines from which on frequent lines are set apart. -/
def longText : Nat := 200

def frequentLines (new : List String) : List String :=
  if new.length < longText then []
  else new.eraseDups.filter fun line => new.length / 100 + 1 < new.count line

/-- An old line with the places where the new text has it, in order. A frequent
line has none. -/
structure OldLine where
  text : String
  places : List Nat

def placesFrom (line : String) : Nat → List String → List Nat
  | _, [] => []
  | index, other :: new =>
      if other = line then index :: placesFrom line (index + 1) new
      else placesFrom line (index + 1) new

def locate (frequent new : List String) (line : String) : OldLine :=
  ⟨line, if frequent.contains line then [] else placesFrom line 0 new⟩

/-- A common run by the new line that ends it, and its length. -/
structure Run where
  last : Nat
  size : Nat

/-- The common runs that end with an old line at one of its places, from those
that end one line earlier. Runs and places stand in order. -/
def nextRuns : List Run → List Nat → List Run
  | _, [] => []
  | runs, place :: places =>
      let near := runs.dropWhile fun run => run.last + 1 < place
      let before :=
        match near with
        | run :: _ => if run.last + 1 = place then run.size else 0
        | [] => 0
      ⟨place, before + 1⟩ :: nextRuns near places

/-- The first longest run among those that end at the old line `row`, if it is
longer than `best`. -/
def betterMatch (row : Nat) : List Run → Match → Match
  | [], best => best
  | run :: rest, best =>
      betterMatch row rest
        (if best.size < run.size then ⟨row + 1 - run.size, run.last + 1 - run.size, run.size⟩
         else best)

/-- The first longest run that ends at the old line `row` or later and lies
between the new lines `start` and `stop`. -/
def searchRows (start stop : Nat) : Nat → List OldLine → List Run → Match → Match
  | _, [], _, best => best
  | row, line :: old, runs, best =>
      let next := nextRuns runs ((line.places.dropWhile (· < start)).takeWhile (· < stop))
      searchRows start stop (row + 1) old next (betterMatch row next best)

def commonLead : List OldLine → List String → Nat
  | line :: old, other :: new => if line.text = other then commonLead old new + 1 else 0
  | _, _ => 0

/-- The longest common run of some old lines and the new lines from `start` on.
It begins where the longest run of lines that are not frequent does, and is as
long on both sides of that point as the lines agree. -/
def longestMatch (start : Nat) (old : List OldLine) (new : List String) : Match :=
  let found := searchRows start (start + new.length) 0 old [] ⟨0, start, 0⟩
  let first := found.new - start
  let back := commonLead (old.take found.old).reverse (new.take first).reverse
  let forth := commonLead (old.drop found.old) (new.drop first)
  ⟨found.old - back, first - back, back + forth⟩

/-- The edits around the longest common run, and on both sides of it. The
number of old lines is enough steps. -/
def align : Nat → Nat → List OldLine → List String → List Edit
  | 0, _, old, new => [.change (old.map OldLine.text) new]
  | steps + 1, start, old, new =>
      let common := longestMatch start old new
      if common.size = 0 then [.change (old.map OldLine.text) new]
      else
        align steps start (old.take common.old) (new.take common.new) ++
          .keep ((new.drop common.new).take common.size) ::
            align steps (start + common.new + common.size)
              (old.drop (common.old + common.size)) (new.drop (common.new + common.size))

/-- Leaves out changes of nothing, and joins neighbouring runs that stay. -/
def tidy : List Edit → List Edit
  | [] => []
  | .change [] [] :: rest => tidy rest
  | .keep lines :: rest =>
      match tidy rest with
      | .keep more :: others => .keep (lines ++ more) :: others
      | others => .keep lines :: others
  | edit :: rest => edit :: tidy rest

def edits (old new : List String) : List Edit :=
  tidy (align (old.length + 1) 0 (old.map (locate (frequentLines new) new)) new)

end DevicetreeFormat.Diff
