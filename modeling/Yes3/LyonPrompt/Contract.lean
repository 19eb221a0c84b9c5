import Yes3.LyonPrompt.Types

/-!
# Yes3.LyonPrompt.Contract — the functions of `LyonPrompt.sol`

Each function is the source function of the same name (`mint` is `_mint`,
`checkOnILyonPromptReceived` is `_checkOnILyonPromptReceived`), statement by
statement; a call that reverts is an `.error`. The only code that is not the
contract's own is the receiver of a mint: how it answers is the parameter
`recv`, and what it does to the contract before it answers is the parameter
`callback`.
-/

namespace Yes3.LyonPrompt

abbrev Result (α : Type) := Except (Revert Error) α

def ADMIN : Address := 0xb0de1700900114c7eeA69a0BEE41d1CA9B7d0412

/-- `ILyonPromptReceiver.onILyonPromptReceived.selector`. -/
def onILyonPromptReceivedSelector : Bytes4 := 0x7f7ac5d6

/-! ## Minting -/

/-- `_mint`. The id is the pre-incremented counter, read inside the second
`require` and then once more. -/
def mint (msg : Msg) (templateId : ℕ) (question context : String) (toAddress : Address)
    (SBTURI : String) (w : World) : Result World := do
  require (toAddress ≠ zeroAddress) "LyonPrompt: mint to the zero address"
  -- the side effect of the index expression comes before the comparison
  let index ← checkedIncr (w.currentIndex templateId)
  let w := w.setCurrentIndex templateId index
  require ((w.prompt ⟨templateId, index⟩).promptOwner = zeroAddress)
    "LyonPrompt: prompt already minted"
  let id := w.currentIndex templateId
  -- the keys and the replies that the slot may hold are left in place
  let w := w.modifyPrompt ⟨templateId, id⟩ fun info =>
    { info with
      promptOwner := toAddress
      question := question
      context := context
      createTime := msg.timestamp
      SBTURI := SBTURI }
  let w := w.setPromptByOwner toAddress (w.promptByOwner toAddress ++ [⟨templateId, id⟩])
  return w.emit (.promptMinted templateId id toAddress)

/-- `isContract`. -/
def isContract (account : Receiver) : Bool :=
  account.codeLength > 0

/-- `_checkOnILyonPromptReceived`: the external call in its `try`, and the
`catch` clause. The callback has run when the receiver returns; when the
receiver reverts, what it did is undone with it. -/
def checkOnILyonPromptReceived (msg : Msg) (recv : Receiver) (callback : World → World)
    (fromAddress toAddress : Address) (tokenId : ℕ) (data : Bytes) (w : World) :
    Result (Bool × World) :=
  if isContract recv then
    match recv.answer with
    | .returned retval =>
      let w := callback (w.receive ⟨toAddress, msg.sender, fromAddress, tokenId, data⟩)
      .ok (retval = onILyonPromptReceivedSelector, w)
    | .reverted reason =>
      if reason.length = 0 then
        .error (.require "LyonPrompt: transfer to non LyonPromptReceiver implementer")
      else
        .error (.raw reason)
    | .undecodable => .error (.raw [])
  else
    .ok (true, w)

def safeMint (msg : Msg) (recv : Receiver) (callback : World → World) (templateId : ℕ)
    (question context : String) (toAddress : Address) (SBTURI : String) (w : World) :
    Result World := do
  let w ← mint msg templateId question context toAddress SBTURI w
  let (accepted, w) ←
    checkOnILyonPromptReceived msg recv callback zeroAddress toAddress templateId [] w
  require (accepted = true) "LyonPrompt: transfer to non LyonPromptReceiver implementer"
  return w

/-! ## Replies -/

def replyPrompt (msg : Msg) (promptId : Prompt) (replierAddress : Address)
    (replyDetail comment signature : String) (w : World) : Result World := do
  require (msg.sender = ADMIN) "Only admin can update prompt"
  let replyInfo : ReplyInfo :=
    { replyDetail := replyDetail
      comment := comment
      signature := signature
      createTime := msg.timestamp }
  let w := w.modifyPrompt promptId fun info =>
    { info with replies := Function.update info.replies replierAddress replyInfo }
  -- the key is pushed whether or not the replier is a key already
  let w := w.modifyPrompt promptId fun info => { info with keys := info.keys ++ [replierAddress] }
  let w := w.setPromptByReplier replierAddress (w.promptByReplier replierAddress ++ [promptId])
  let promptInfo := w.prompt promptId
  return w.emit (.repliedToPrompt promptId.templateId promptId.id promptInfo.promptOwner
    promptInfo.question replierAddress replyDetail comment signature msg.timestamp)

def burnReplies (promptId : Prompt) (replier : Address) (w : World) : Result World := do
  let w := w.modifyPrompt promptId fun info =>
    { info with replies := Function.update info.replies replier ReplyInfo.blank }
  let keys ← checked (DynArray.removeFirst (fun key => key = replier) (w.prompt promptId).keys)
  let w := w.modifyPrompt promptId fun info => { info with keys := keys }
  let prompts ← checked (DynArray.removeFirst
    (fun prompt => prompt.templateId = promptId.templateId && prompt.id = promptId.id)
    (w.promptByReplier replier))
  return w.setPromptByReplier replier prompts

/-! ## Burning and the token URI -/

/-- The loop that `burnPrompt` runs twice: in the list of the owner that the
storage pointer `promptInfo` reads, remove the first entry with the id of the
prompt. The loop does not write the owner, so it is read once. -/
def removeFromOwner (promptId : Prompt) (w : World) : Result World := do
  let promptInfo := w.prompt promptId
  let prompts ← checked (DynArray.removeFirst (fun prompt => prompt.id = promptId.id)
    (w.promptByOwner promptInfo.promptOwner))
  return w.setPromptByOwner promptInfo.promptOwner prompts

/-- The slot is deleted before the loops read the owner from it. -/
def burnPrompt (promptId : Prompt) (w : World) : Result World := do
  let w := w.modifyPrompt promptId PromptInfo.delete
  -- from here on the owner reads as the zero address
  let w ← removeFromOwner promptId w
  removeFromOwner promptId w

def setTokenURI (msg : Msg) (tokenId : Prompt) (tokenURI : String) (w : World) : Result World := do
  require (msg.sender = (w.prompt tokenId).promptOwner) "Only prompt owner can set tokenURI"
  return w.modifyPrompt tokenId fun info => { info with SBTURI := tokenURI }

/-! ## Views -/

def balanceOf (owner : Address) (w : World) : Result ℕ := do
  require (owner ≠ zeroAddress) "BalanceQueryForZeroAddress"
  return (w.promptByOwner owner).length

def tokenURI (promptId : Prompt) (w : World) : String :=
  (w.prompt promptId).SBTURI

def totalSupply (templateId : ℕ) (w : World) : ℕ :=
  w.currentIndex templateId

/-- The condition tests the named return variable `owner`, which is still zero,
and not `promptOwner`. -/
def ownerOf (promptId : Prompt) (w : World) : Result Address :=
  let owner := zeroAddress
  let promptOwner := (w.prompt promptId).promptOwner
  if owner = zeroAddress then
    .error (.custom (.ownerQueryForNonexistentToken promptId.templateId promptId.id))
  else
    .ok promptOwner

def queryAllPromptByAddress (owner : Address) (w : World) : List Prompt :=
  w.promptByOwner owner

def queryAllRepliesByAddress (owner : Address) (w : World) : List Prompt :=
  w.promptByReplier owner

def queryAllRepliesByPrompt (promptId : Prompt) (w : World) : Result (List ReplyInfo) :=
  let promptInfo := w.prompt promptId
  checked (DynArray.mapInto (fun key => promptInfo.replies key) ReplyInfo.blank promptInfo.keys)

def queryPromptInfoById (promptId : Prompt) (w : World) :
    Address × String × String × String × ℕ :=
  let promptInfo := w.prompt promptId
  (promptInfo.promptOwner, promptInfo.question, promptInfo.context, promptInfo.SBTURI,
    promptInfo.createTime)

end Yes3.LyonPrompt
