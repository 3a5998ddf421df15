import MyClaw.Lib.Loop
import MyClaw.Channels.SplitPoint

set_option autoImplicit false

/-!
# Splitting a message into chunks

The loop that cuts a message into chunks for a channel (`split_message_chunk` in
`channels/message/chunking.rs`).

## Main definitions

* `Piece` — a chunk, in the parts that it is put together from.
* `turn` — one turn of the loop.
* `splitMessagePieces` — the pieces of a message.
-/

namespace MyClaw

/-- A chunk: what is repeated in front of the text of the message, this text, and what is closed
behind it. -/
structure Piece where
  blockPrefix : List Char
  inlineReopen : List Char
  body : List Char
  inlineClose : List Char
  closeSuffix : List Char
  deriving DecidableEq

/-- The chunk itself. -/
def Piece.text (p : Piece) : List Char :=
  p.blockPrefix ++ p.inlineReopen ++ p.body ++ p.inlineClose ++ p.closeSuffix

/-- What the loop of `split_message_chunk` carries from turn to turn. -/
structure SplitState where
  remaining : List Char
  fenceCarry : Option FenceCarry
  tableCarry : Option (List Char)
  inlineCarry : List Marker
  deriving DecidableEq

namespace SplitState

/-- The state before the first turn. -/
def start (message : List Char) : SplitState :=
  { remaining := message, fenceCarry := none, tableCarry := none, inlineCarry := [] }

/-- The loop is over: no text remains. -/
def done (st : SplitState) : Bool := st.remaining.isEmpty

/-- `block_prefix`. -/
def blockPrefix (st : SplitState) : List Char :=
  match st.fenceCarry with
  | some fc => fc.openLine
  | none => st.tableCarry.getD []

/-- `inline_reopen`. -/
def inlineReopen (st : SplitState) : List Char := markerTokens st.inlineCarry

/-- What the prefix of the next chunk costs. -/
def prefixCost (st : SplitState) (unit : LenUnit) : ℕ :=
  measure st.blockPrefix unit + measure st.inlineReopen unit

/-- `content_limit`. -/
def contentLimit (st : SplitState) (limit : ℕ) (unit : LenUnit) : ℕ :=
  limit - st.prefixCost unit - if st.fenceCarry.isSome then 0 else inlineReserve unit

/-- `body_limit`, of the turn that has to cut before it closes a block of code. -/
def bodyLimit (st : SplitState) (limit : ℕ) (unit : LenUnit) (fc : FenceCarry) : ℕ :=
  max (limit - st.prefixCost unit - measure fc.closeSuffix unit) 1

end SplitState

/-- The text of a turn that leaves room for a line that closes a block: a part of `head` that is within
the budget, or one character. -/
def bodyWithin (st : SplitState) (unit : LenUnit) (head : List Char) (budget : ℕ) : List Char :=
  let body := trimToUnitBudget (trimEnd head) budget unit
  if body = [] then st.remaining.take 1 else body

/-- The chunk of a turn whose text fits, but not with the line that closes the block of code `fc`. -/
def overflowPiece (limit : ℕ) (unit : LenUnit) (st : SplitState) (fc : FenceCarry)
    (split : SplitPoint) : Piece × SplitState :=
  let pos :=
    if split.index = 0 ∨ st.remaining.length ≤ split.index then min 1 (st.remaining.length - 1)
    else split.index
  let fcUse := split.fenceCarry.getD fc
  let bodyBudget := limit - st.prefixCost unit - measure fcUse.closeSuffix unit
  let body := bodyWithin st unit (st.remaining.take pos) bodyBudget
  ( { blockPrefix := st.blockPrefix
      inlineReopen := st.inlineReopen
      body := body
      inlineClose := []
      closeSuffix := fcUse.closeSuffix },
    { remaining := st.remaining.drop body.length
      fenceCarry := some fcUse
      tableCarry := none
      inlineCarry := [] })

/-- The chunk of a turn that cuts the text. -/
def cutPiece (st : SplitState) (split : SplitPoint) : Piece × SplitState :=
  let head := trimEnd (st.remaining.take split.index)
  let rest := st.remaining.drop split.index
  match split.fenceCarry with
  | some fc =>
    ( { blockPrefix := st.blockPrefix
        inlineReopen := st.inlineReopen
        body := head
        inlineClose := []
        closeSuffix := fc.closeSuffix },
      { remaining := rest, fenceCarry := some fc, tableCarry := none, inlineCarry := [] })
  | none =>
    let piece : Piece :=
      { blockPrefix := st.blockPrefix
        inlineReopen := st.inlineReopen
        body := head
        inlineClose := markerTokens split.markers.reverse
        closeSuffix := [] }
    ( piece,
      { remaining := rest.dropWhile isBlankChar
        fenceCarry := none
        tableCarry := openTableHeader piece.text rest
        inlineCarry := split.markers })

/-- The chunk of the last turn. -/
def lastPiece (st : SplitState) (closeSuffix : List Char) : Piece :=
  { blockPrefix := st.blockPrefix
    inlineReopen := st.inlineReopen
    body := trimEnd st.remaining
    inlineClose := []
    closeSuffix := closeSuffix }

/-- One turn of the loop: the next chunk, and the state after it unless it is the last one. -/
def turn (fuel limit : ℕ) (unit : LenUnit) (st : SplitState) : Option (Piece × Option SplitState) :=
  let search (limit : ℕ) := findSplitPoint fuel st.remaining limit unit st.fenceCarry st.inlineCarry
  if measure st.remaining unit ≤ st.contentLimit limit unit then
    match trailingOpenCarry st.remaining st.fenceCarry with
    | some fc =>
      if measure (lastPiece st fc.closeSuffix).text unit ≤ limit then
        some (lastPiece st fc.closeSuffix, none)
      else
        (search (st.bodyLimit limit unit fc)).map fun split =>
          (overflowPiece limit unit st fc split).map id some
    | none => some (lastPiece st [], none)
  else (search (st.contentLimit limit unit)).map fun split => (cutPiece st split).map id some

/-- The loop of `split_message_chunk`. -/
def splitLoop (limit : ℕ) (unit : LenUnit) (fuel : ℕ) (st : SplitState) : Option (List Piece) :=
  Loop.run SplitState.done (fun fuel => turn fuel limit unit) fuel st

/-- The chunk of a message that is not split. -/
def wholeMessage (message : List Char) (limit : ℕ) (unit : LenUnit) : Option Piece :=
  if measure message unit ≤ limit then
    match trailingOpenCarry message none with
    | some fc =>
      if measure (trimEnd message ++ fc.closeSuffix) unit ≤ limit then
        some ⟨[], [], trimEnd message, [], fc.closeSuffix⟩
      else none
    | none => some ⟨[], [], message, [], []⟩
  else none

/-- The chunks of `split_message_chunk`, in their parts. -/
def splitMessagePieces (fuel : ℕ) (message : List Char) (limit : ℕ) (unit : LenUnit) :
    Option (List Piece) :=
  match wholeMessage message limit unit with
  | some piece => some [piece]
  | none => splitLoop limit unit fuel (SplitState.start message)

/-- `split_message_chunk`. -/
def splitMessageChunk (fuel : ℕ) (message : List Char) (limit : ℕ) (unit : LenUnit) :
    Option (List (List Char)) :=
  (splitMessagePieces fuel message limit unit).map (·.map Piece.text)

end MyClaw
