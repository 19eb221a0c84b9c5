import Mathlib.Logic.Function.Basic
import Yes3.Evm

/-!
# Yes3.LyonPrompt.Types — the data of the prompt contract

The structs, events and errors of `ILyonPrompt.sol`, the storage of
`LyonPrompt.sol`, and the world a call runs in.

A mapping is a total function (an absent key reads as the zero value). The
mapping `_prompt[templateId][id]` is indexed by the pair, the struct `Prompt`.
A dynamic array is a list, of any length.
-/

namespace Yes3.LyonPrompt

/-! ## Structs -/

/-- The identifier of a prompt: the template, and the number under the template. -/
structure Prompt where
  templateId : ℕ
  id : ℕ
deriving DecidableEq, Repr

structure ReplyInfo where
  replyDetail : String := ""
  comment : String := ""
  signature : String := ""
  createTime : ℕ := 0
deriving DecidableEq, Repr

/-- The all-empty record, which an absent key of `replies` reads as. -/
def ReplyInfo.blank : ReplyInfo := {}

structure PromptInfo where
  promptOwner : Address := zeroAddress
  question : String := ""
  context : String := ""
  keys : List Address := []
  replies : Address → ReplyInfo := fun _ => ReplyInfo.blank
  createTime : ℕ := 0
  SBTURI : String := ""

/-- `delete` on the struct: every member is reset but the mapping, whose entries
the compiler cannot enumerate. -/
def PromptInfo.delete (info : PromptInfo) : PromptInfo :=
  { replies := info.replies }

/-! ## Events and errors -/

inductive Event where
  | repliedToPrompt (templateId id : ℕ) (promptOwner : Address) (question : String)
      (replierAddress : Address) (replyDetail comment signature : String) (creationTime : ℕ)
  | promptMinted (templateId id : ℕ) (toAddress : Address)
deriving DecidableEq, Repr

inductive Error where
  | ownerQueryForNonexistentToken (templateId id : ℕ)
deriving DecidableEq, Repr

/-! ## Calls -/

/-- The state-changing entry points with their arguments. -/
inductive Op where
  | safeMint (templateId : ℕ) (question context : String) (toAddress : Address) (SBTURI : String)
  | replyPrompt (promptId : Prompt) (replierAddress : Address)
      (replyDetail comment signature : String)
  | burnReplies (promptId : Prompt) (replier : Address)
  | burnPrompt (promptId : Prompt)
  | setTokenURI (tokenId : Prompt) (tokenURI : String)
deriving DecidableEq, Repr

/-- A call of the contract. -/
structure Call where
  msg : Msg
  op : Op
deriving DecidableEq, Repr

/-- What the account `to` of a mint answers when it is called. -/
inductive Answer where
  | returned (retval : Bytes4)
  | reverted (reason : Bytes)
  /-- The call returns, with data that is no `bytes4`. -/
  | undecodable
deriving DecidableEq, Repr

/-- The account `to` of a mint, as the mint finds it. -/
structure Receiver where
  codeLength : ℕ
  answer : Answer
deriving DecidableEq, Repr

/-- A call of `onILyonPromptReceived`, or of `onERC721Received`, which has the same
arguments (`fromAddress` is `from`). -/
structure Received where
  toAddress : Address
  operator : Address
  fromAddress : Address
  tokenId : ℕ
  data : Bytes
deriving DecidableEq, Repr

/-! ## State -/

/-- The storage of the contract. -/
structure Storage where
  prompt : Prompt → PromptInfo := fun _ => {}
  currentIndex : ℕ → ℕ := fun _ => 0
  promptByOwner : Address → List Prompt := fun _ => []
  promptByReplier : Address → List Prompt := fun _ => []

/-- The world of a call: the storage and the event log, and two records of the
execution, which no call can read: the calls that took effect so far, in the
order in which they were made, and the calls made to receivers. Like everything
else they are undone when a call reverts. -/
structure World extends Storage where
  events : List Event := []
  calls : List Call := []
  received : List Received := []

namespace World

/-- The world right after the contract is deployed. -/
def init : World := {}

/-- `emit e`. -/
def emit (e : Event) (w : World) : World :=
  { w with events := w.events ++ [e] }

/-- Note that a call is made. -/
def record (c : Call) (w : World) : World :=
  { w with calls := w.calls ++ [c] }

/-- Note that a receiver is called. -/
def receive (r : Received) (w : World) : World :=
  { w with received := w.received ++ [r] }

/-- Write through a storage pointer to `_prompt[p.templateId][p.id]`. -/
def modifyPrompt (p : Prompt) (f : PromptInfo → PromptInfo) (w : World) : World :=
  { w with prompt := Function.update w.prompt p (f (w.prompt p)) }

def setCurrentIndex (templateId n : ℕ) (w : World) : World :=
  { w with currentIndex := Function.update w.currentIndex templateId n }

def setPromptByOwner (a : Address) (ps : List Prompt) (w : World) : World :=
  { w with promptByOwner := Function.update w.promptByOwner a ps }

def setPromptByReplier (a : Address) (ps : List Prompt) (w : World) : World :=
  { w with promptByReplier := Function.update w.promptByReplier a ps }

end World

end Yes3.LyonPrompt
