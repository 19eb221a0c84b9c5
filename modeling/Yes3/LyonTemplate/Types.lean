import Yes3.ERC721.Token
import Yes3.LyonPrompt.Types

/-!
# Yes3.LyonTemplate.Types — the data of the template contract

The struct and the storage of `LyonTemplate.sol`, over the storage of the token
contract that it inherits, and the world a call runs in. Receivers of tokens are
called with the same arguments as receivers of prompts, and answer as they do, so
their types are shared.
-/

namespace Yes3.LyonTemplate

open LyonPrompt (Receiver Received)

/-- `templateMetaData`. -/
structure TemplateMetaData where
  templateId : ℕ := 0
  ownerAddress : Address := zeroAddress
  question : String := ""
  context : String := ""
  createTime : ℕ := 0
  templateURI : String := ""
deriving DecidableEq, Repr

/-! ## Calls -/

/-- The state-changing entry points with their arguments, those of the token
contract included. The short `safeTransferFrom` is the long one without data. -/
inductive Op where
  | mintTemplate (question context templateURI : String)
  | newPrompMinted (promptId : ℕ)
  | setTokenURI (id : ℕ) (templateURI : String)
  | approve (toAddress : Address) (tokenId : ℕ)
  | setApprovalForAll (operator : Address) (approved : Bool)
  | transferFrom (fromAddress toAddress : Address) (tokenId : ℕ)
  | safeTransferFrom (fromAddress toAddress : Address) (tokenId : ℕ) (data : Bytes)
deriving DecidableEq, Repr

/-- A call of the contract. -/
structure Call where
  msg : Msg
  op : Op
deriving DecidableEq, Repr

/-! ## State -/

/-- The storage of the contract. -/
structure Storage extends ERC721.State where
  templateId : ℕ := 1
  ownershipRecord : ℕ → TemplateMetaData := fun _ => {}
  promptCount : ℕ → ℕ := fun _ => 0
  templateByAddress : Address → List ℕ := fun _ => []

/-- The world of a call: the storage, with the event log, and two records of the
execution, which no call can read: the calls that took effect so far, in the
order in which they were made, and the calls made to receivers. -/
structure World extends Storage where
  calls : List Call := []
  received : List Received := []

namespace World

/-- The world right after the contract is deployed. -/
def init : World := {}

/-- Note that a call is made. -/
def record (c : Call) (w : World) : World :=
  { w with calls := w.calls ++ [c] }

/-- Note that a receiver is called. -/
def receive (r : Received) (w : World) : World :=
  { w with received := w.received ++ [r] }

/-- The storage of the token contract is replaced. -/
def setToken (s : ERC721.State) (w : World) : World :=
  { w with toState := s }

def setTemplateId (n : ℕ) (w : World) : World :=
  { w with templateId := n }

def setOwnershipRecord (id : ℕ) (info : TemplateMetaData) (w : World) : World :=
  { w with ownershipRecord := Function.update w.ownershipRecord id info }

def setPromptCount (promptId n : ℕ) (w : World) : World :=
  { w with promptCount := Function.update w.promptCount promptId n }

def setTemplateByAddress (a : Address) (ids : List ℕ) (w : World) : World :=
  { w with templateByAddress := Function.update w.templateByAddress a ids }

end World

end Yes3.LyonTemplate
