import Ocfs2Coverage.Python.Dict
import Ocfs2Coverage.Source.Classifier

/-!
Contract: the splitting of the executable lines of a file into blocks.

Owns: `BLOCK_LEAD_RE`, `BLOCK_END_RE`, `BLOCK_SPLIT_NEXT_RE` and
`exec_line_blocks`, one executable line at a time: the state the loop carries,
the decision whether a line starts a block, and the state after the line.

Does not own: what the blocks are used for.
-/

namespace Ocfs2Coverage.Source

open Ocfs2Coverage.Python

section Blocks

variable [UnicodeData]

/-- `BLOCK_LEAD_RE`: `^(if|else|for|while|switch|case\b|default\s*:)\b`. -/
def blockLeadRe : Regex :=
  .seqs [.start,
    .oneOf [.lit "if".toList, .lit "else".toList, .lit "for".toList, .lit "while".toList,
      .lit "switch".toList, .seq (.lit "case".toList) .boundary,
      .seqs [.lit "default".toList, .many isSpace, .lit ":".toList]],
    .boundary]

/-- `BLOCK_END_RE`: `\b(return|goto|break|continue)\b`. -/
def blockEndRe : Regex :=
  .wholeWord ["return".toList, "goto".toList, "break".toList, "continue".toList]

/-- `BLOCK_SPLIT_NEXT_RE`: `^(if|else|for|while|switch)\b`. -/
def blockSplitNextRe : Regex :=
  .seqs [.start,
    .oneOf [.lit "if".toList, .lit "else".toList, .lit "for".toList, .lit "while".toList,
      .lit "switch".toList],
    .boundary]

/-- `\belse\b`. -/
def elseRe : Regex := .wholeWord ["else".toList]

/-- `raw[ln - 1]`, the line with number `ln`. -/
def lineAt (raw : List Str) (ln : Nat) : Str := raw.getD (ln - 1) []

/-- The stripped lines strictly between the lines `a` and `b`, joined by blanks. -/
def gapText (raw : List Str) (a b : Nat) : Str :=
  join " ".toList ((List.range' a (b - 1 - a)).map fun i => strip (raw.getD i []))

/-- `"}" in blob or re.search(r"\belse\b", blob)`. -/
def gapCloses (raw : List Str) (a b : Nat) : Bool :=
  contains (gapText raw a b) "\x7d".toList || elseRe.search (gapText raw a b)

/-- The variables of the loop of `exec_line_blocks`. -/
structure SplitState where
  bid : Nat
  prev : Option Nat
  splitNext : Bool
  unbraced : Bool
  afterUnbraced : Bool
  depth : Nat
  opCont : Bool
deriving DecidableEq, Repr

omit [UnicodeData] in
def SplitState.init : SplitState :=
  { bid := 0, prev := none, splitNext := false, unbraced := false, afterUnbraced := false,
    depth := 0, opCont := false }

namespace SplitState

/-- The lines since the previous executable line close a construct. -/
def gap (st : SplitState) (raw : List Str) (ln : Nat) : Bool :=
  match st.prev with
  | some prev => decide (prev < ln - 1) && gapCloses raw prev ln
  | none => false

/-- The paren depth the line is judged at; such a gap resets it. -/
def depthAt (st : SplitState) (raw : List Str) (ln : Nat) : Nat :=
  if st.gap raw ln then 0 else st.depth

def opContAt (st : SplitState) (raw : List Str) (ln : Nat) : Bool :=
  if st.gap raw ln then false else st.opCont

/-- The line continues an open parenthesis or a trailing operator. -/
def continues (st : SplitState) (raw : List Str) (ln : Nat) : Bool :=
  decide (0 < st.depthAt raw ln) || st.opContAt raw ln

def afterJump (st : SplitState) (raw : List Str) : Bool :=
  match st.prev with
  | some prev => blockEndRe.search (lineAt raw prev)
  | none => false

/-- `new`: the line starts a block. -/
def startsBlock (st : SplitState) (raw : List Str) (ln : Nat) : Bool :=
  if st.prev.isNone || st.gap raw ln then true
  else if st.continues raw ln then false
  else st.afterUnbraced || blockLeadRe.isMatch (strip (lineAt raw ln)) || st.splitNext ||
    st.afterJump raw

/-- The line is the head of a control statement. -/
def opensControl (st : SplitState) (raw : List Str) (ln : Nat) : Bool :=
  !st.continues raw ln && blockSplitNextRe.isMatch (strip (lineAt raw ln))

end SplitState

omit [UnicodeData] in
/-- The line breaks off after an operator. -/
def endsWithOperator (s : Str) : Bool :=
  !endswith s ";".toList && !endswith s "\x7b".toList && !endswith s "\x7d".toList &&
    ["-".toList, "+".toList, "*".toList, "/".toList, ".".toList, "=".toList, "->".toList].any
      (endswith s)

/-- One round of the loop of `exec_line_blocks`. -/
def splitStep (raw : List Str) (st : SplitState) (ln : Nat) : SplitState :=
  let s := strip (lineAt raw ln)
  { bid := if st.startsBlock raw ln then st.bid + 1 else st.bid
    prev := some ln
    splitNext := st.opensControl raw ln
    unbraced := if st.opensControl raw ln then !contains s "\x7b".toList else st.unbraced
    afterUnbraced := st.splitNext && st.unbraced && !st.continues raw ln
    depth := if endswith s ";".toList then 0
      else st.depthAt raw ln + s.count '(' - s.count ')'
    opCont := endsWithOperator s }

/-- The loop from a state: each line with the state after it. -/
def splitStates (raw : List Str) (st : SplitState) : List Nat → List (Nat × SplitState)
  | [] => []
  | ln :: rest => (ln, splitStep raw st ln) :: splitStates raw (splitStep raw st ln) rest

/-- `exec_line_blocks`: the block number of every executable line. -/
def execLineBlocks (raw : List Str) (execIdx : List Nat) : Dict Nat Nat :=
  .ofItems ((splitStates raw .init execIdx).map fun item => (item.1, item.2.bid))

/-! ## The straight-line successor -/

/-- The test `cohere_forward_hits` makes on adjacent executable lines `a` and `b`. -/
def straightLine (raw : List Str) (a b : Nat) : Bool :=
  let sa := strip (lineAt raw a)
  let sb := strip (lineAt raw b)
  !(blockLeadRe.isMatch sa || blockEndRe.search sa) && !blockLeadRe.isMatch sb &&
    endswith sa ";".toList && !gapCloses raw a b

end Blocks

end Ocfs2Coverage.Source
