import Yes3.LyonTemplate.Types

/-!
# Yes3.LyonTemplate.Contract — the functions of `LyonTemplate.sol`

Each function is the source function of the same name, statement by statement
(`checkOnERC721Received`, `safeMint` and `safeTransfer` are the inherited
`_checkOnERC721Received`, `_safeMint` and `_safeTransfer`). As for the prompt
contract, the receiver of a token is the parameter `recv`, and what it does to
the contract before it answers is the parameter `callback`.
-/

namespace Yes3.LyonTemplate

open LyonPrompt (Receiver)
open ERC721 (Result)

/-- `IERC721Receiver.onERC721Received.selector`. -/
def onERC721ReceivedSelector : Bytes4 := 0x150b7a02

/-- A function of the token contract, run on the storage that is its own. -/
def onToken (f : ERC721.State → Result ERC721.State) (w : World) : Result World := do
  let s ← f w.toState
  return w.setToken s

/-! ## The calls that call out -/

/-- `isContract`. -/
def isContract (account : Receiver) : Bool :=
  account.codeLength > 0

/-- `_checkOnERC721Received`: the external call in its `try`, and the `catch`
clause. -/
def checkOnERC721Received (msg : Msg) (recv : Receiver) (callback : World → World)
    (fromAddress toAddress : Address) (tokenId : ℕ) (data : Bytes) (w : World) :
    Result (Bool × World) :=
  if isContract recv then
    match recv.answer with
    | .returned retval =>
      let w := callback (w.receive ⟨toAddress, msg.sender, fromAddress, tokenId, data⟩)
      .ok (retval = onERC721ReceivedSelector, w)
    | .reverted reason =>
      if reason.length = 0 then
        .error (.require "ERC721: transfer to non ERC721Receiver implementer")
      else
        .error (.raw reason)
    | .undecodable => .error (.raw [])
  else
    .ok (true, w)

/-- `_safeMint`. -/
def safeMint (msg : Msg) (recv : Receiver) (callback : World → World) (toAddress : Address)
    (tokenId : ℕ) (data : Bytes) (w : World) : Result World := do
  let w ← onToken (ERC721.mint toAddress tokenId) w
  let (accepted, w) ←
    checkOnERC721Received msg recv callback zeroAddress toAddress tokenId data w
  require (accepted = true) "ERC721: transfer to non ERC721Receiver implementer"
  return w

/-- `_safeTransfer`. -/
def safeTransfer (msg : Msg) (recv : Receiver) (callback : World → World)
    (fromAddress toAddress : Address) (tokenId : ℕ) (data : Bytes) (w : World) :
    Result World := do
  let w ← onToken (ERC721.transfer fromAddress toAddress tokenId) w
  let (accepted, w) ←
    checkOnERC721Received msg recv callback fromAddress toAddress tokenId data w
  require (accepted = true) "ERC721: transfer to non ERC721Receiver implementer"
  return w

def safeTransferFrom (msg : Msg) (recv : Receiver) (callback : World → World)
    (fromAddress toAddress : Address) (tokenId : ℕ) (data : Bytes) (w : World) :
    Result World := do
  let authorised ← ERC721.isApprovedOrOwner msg.sender tokenId w.toState
  require (authorised = true) "ERC721: caller is not token owner or approved"
  safeTransfer msg recv callback fromAddress toAddress tokenId data w

/-! ## Templates -/

/-- The record, the list and the counter are written after the token is minted
and its receiver has answered, at the id that the counter shows then. -/
def mintTemplate (msg : Msg) (recv : Receiver) (callback : World → World)
    (question context templateURI : String) (w : World) : Result World := do
  let w ← safeMint msg recv callback msg.sender w.templateId [] w
  let w := w.setOwnershipRecord w.templateId
    { templateId := w.templateId
      ownerAddress := msg.sender
      question := question
      context := context
      createTime := msg.timestamp
      templateURI := templateURI }
  let w := w.setTemplateByAddress msg.sender (w.templateByAddress msg.sender ++ [w.templateId])
  return w.setTemplateId (uncheckedIncr w.templateId)

def newPrompMinted (promptId : ℕ) (w : World) : Result World :=
  .ok (w.setPromptCount promptId (uncheckedIncr (w.promptCount promptId)))

def setTokenURI (msg : Msg) (id : ℕ) (templateURI : String) (w : World) : Result World := do
  require ((w.ownershipRecord id).ownerAddress = msg.sender)
    "Not Authorized because you are not the owner"
  return w.setOwnershipRecord id { w.ownershipRecord id with templateURI := templateURI }

/-! ## Views -/

def balanceOf (owner : Address) (w : World) : Result ℕ :=
  ERC721.balanceOf owner w.toState

def ownerOf (tokenId : ℕ) (w : World) : Result Address :=
  ERC721.ownerOf tokenId w.toState

def tokenURI (id : ℕ) (w : World) : Result String := do
  ERC721.requireMinted id w.toState
  return (w.ownershipRecord id).templateURI

def queryTokenURI (id : ℕ) (w : World) : String :=
  (w.ownershipRecord id).templateURI

def queryAllTemplatesByAddress (owner : Address) (w : World) : List ℕ :=
  w.templateByAddress owner

end Yes3.LyonTemplate
