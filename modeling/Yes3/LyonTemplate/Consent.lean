import Yes3.LyonTemplate.Ledger

/-!
# Yes3.LyonTemplate.Consent — no token changes hands without consent

Who has a token and who may move it, read off the calls made so far and nothing
else: a token belongs to whoever minted it until a transfer gives it away, and it
moves if its owner asks, or somebody whom the owner has made an operator, or
whoever was approved for it last, by one of those, while the token was there.

* `ConsentInv` says that the storage keeps exactly that.
* `custody` is the result, for every world in which outside code runs: the owners
  are those of the history, every transfer in it was consented to when it was
  made, and a transfer goes through exactly if it is consented to.
-/

namespace Yes3.LyonTemplate

open CallTree
open LyonPrompt (Receiver alice bob)
open ERC721 (Replays)

/-! ## The history -/

/-- The call is a transfer of the token. -/
def Call.Moves (c : Call) (a b : Address) (tokenId : ℕ) : Prop :=
  c.op = .transferFrom a b tokenId ∨ ∃ data, c.op = .safeTransferFrom a b tokenId data

/-- Who is given the token by the call. -/
def Call.hands (tokenId : ℕ) (c : Call) : Option Address :=
  match c.op with
  | .transferFrom _ b id => if id = tokenId then some b else none
  | .safeTransferFrom _ b id _ => if id = tokenId then some b else none
  | _ => none

/-- Who is approved for the token by the call. A transfer of it approves nobody. -/
def Call.approves (tokenId : ℕ) (c : Call) : Option Address :=
  match c.op with
  | .approve b id => if id = tokenId then some b else none
  | .transferFrom _ _ id => if id = tokenId then some zeroAddress else none
  | .safeTransferFrom _ _ id _ => if id = tokenId then some zeroAddress else none
  | _ => none

/-- Whether the call makes the one an operator of the other, or withdraws it. -/
def Call.empowers (owner operator : Address) (c : Call) : Option Bool :=
  match c.op with
  | .setApprovalForAll p approved =>
    if c.msg.sender = owner ∧ p = operator then some approved else none
  | _ => none

/-- Who minted the token. -/
def minter (calls : List Call) (tokenId : ℕ) : Address :=
  (((mintLog calls).find? fun info => info.templateId = tokenId).map
    TemplateMetaData.ownerAddress).getD zeroAddress

/-- Who has the token. -/
def holder (calls : List Call) (tokenId : ℕ) : Address :=
  Register.after (Call.hands tokenId) (minter calls tokenId) calls

def operatorBy (calls : List Call) (owner operator : Address) : Bool :=
  Register.after (Call.empowers owner operator) false calls

def approvedBy (calls : List Call) (tokenId : ℕ) : Address :=
  Register.after (Call.approves tokenId) zeroAddress calls

/-- The owner, or an operator of the owner. -/
def SpeaksFor (calls : List Call) (owner sender : Address) : Prop :=
  sender = owner ∨ operatorBy calls owner sender = true

/-- Somebody who spoke for the owner has approved the spender for the token, and
the token was neither approved for anybody nor moved since. -/
def Entrusted (calls : List Call) (owner spender : Address) (tokenId : ℕ) : Prop :=
  ∃ pre c post, calls = pre ++ c :: post ∧ c.op = .approve spender tokenId ∧
    SpeaksFor pre owner c.msg.sender ∧ ∀ d ∈ post, d.approves tokenId = none

def MayMove (calls : List Call) (owner spender : Address) (tokenId : ℕ) : Prop :=
  SpeaksFor calls owner spender ∨ Entrusted calls owner spender tokenId

/-- The transfer is one that its sender may ask for. -/
def Consented (calls : List Call) (sender a b : Address) (tokenId : ℕ) : Prop :=
  holder calls tokenId = a ∧ a ≠ zeroAddress ∧ b ≠ zeroAddress ∧
    MayMove calls a sender tokenId

/-! ## One more call -/

section Snoc

variable {calls : List Call} {c : Call} {tokenId : ℕ}

/-- Only a mint makes a minter. -/
theorem minter_snoc_of_not_mints (hc : c.mints = false) :
    minter (calls ++ [c]) = minter calls := by
  funext id
  unfold minter
  rw [mintLog_snoc]
  rcases c with ⟨msg, op⟩
  cases op with
  | mintTemplate question context uri => cases hc
  | setTokenURI id' uri => simp [logCall, List.find?_map, Function.comp_def]
  | _ => rfl

theorem holder_snoc_of_not_mints (hc : c.mints = false) :
    holder (calls ++ [c]) tokenId = (c.hands tokenId).getD (holder calls tokenId) := by
  rw [holder, minter_snoc_of_not_mints hc, Register.after_snoc]
  rfl

/-- A token that is handed over has nobody approved for it. -/
theorem Call.hands_of_approves_none (h : c.approves tokenId = none) : c.hands tokenId = none := by
  rcases c with ⟨msg, op⟩
  cases op with
  | transferFrom a b id => simpa [Call.approves, Call.hands] using h
  | safeTransferFrom a b id data => simpa [Call.approves, Call.hands] using h
  | _ => rfl

section Moves

variable {a b a' b' : Address} {id : ℕ}

theorem Call.Moves.not_mints (h : c.Moves a b tokenId) : c.mints = false := by
  rcases c with ⟨msg, op⟩
  rcases h with rfl | ⟨data, rfl⟩
  · rfl
  · rfl

theorem Call.Moves.hands_eq (h : c.Moves a b tokenId) (id : ℕ) :
    c.hands id = if tokenId = id then some b else none := by
  rcases c with ⟨msg, op⟩
  rcases h with rfl | ⟨data, rfl⟩
  · rfl
  · rfl

theorem Call.Moves.approves_eq (h : c.Moves a b tokenId) (id : ℕ) :
    c.approves id = if tokenId = id then some zeroAddress else none := by
  rcases c with ⟨msg, op⟩
  rcases h with rfl | ⟨data, rfl⟩
  · rfl
  · rfl

theorem Call.Moves.empowers_eq (h : c.Moves a b tokenId) (owner operator : Address) :
    c.empowers owner operator = none := by
  rcases c with ⟨msg, op⟩
  rcases h with rfl | ⟨data, rfl⟩
  · rfl
  · rfl

theorem Call.Moves.unique (h : c.Moves a b tokenId) (h' : c.Moves a' b' id) :
    a' = a ∧ b' = b ∧ id = tokenId := by
  rcases c with ⟨msg, op⟩
  rcases h with rfl | ⟨data, rfl⟩
  · rcases h' with hop | ⟨data', hop⟩
    · cases hop
      exact ⟨rfl, rfl, rfl⟩
    · cases hop
  · rcases h' with hop | ⟨data', hop⟩
    · cases hop
    · cases hop
      exact ⟨rfl, rfl, rfl⟩

/-- A call that hands no token over is no transfer. -/
theorem Call.Moves.of_hands_none (hhands : ∀ id, c.hands id = none) :
    ¬ c.Moves a b tokenId := by
  intro h
  have hnone := hhands tokenId
  rw [h.hands_eq, if_pos rfl] at hnone
  cases hnone

end Moves

theorem Entrusted.snoc {owner spender : Address} (h : Entrusted calls owner spender tokenId)
    (hc : c.approves tokenId = none) : Entrusted (calls ++ [c]) owner spender tokenId := by
  obtain ⟨pre, d, post, rfl, hop, hspeaks, hpost⟩ := h
  refine ⟨pre, d, post ++ [c], by simp, hop, hspeaks, ?_⟩
  intro e he
  rcases List.mem_append.mp he with hold | hnew
  · exact hpost e hold
  · exact List.mem_singleton.mp hnew ▸ hc

/-- The last approval is the one in force. -/
theorem Entrusted.approvedBy_eq {owner spender : Address}
    (h : Entrusted calls owner spender tokenId) : approvedBy calls tokenId = spender := by
  obtain ⟨pre, d, post, rfl, hop, _, hpost⟩ := h
  exact Register.after_of_last (by simp [Call.approves, hop]) hpost

end Snoc

/-! ## The invariant -/

/-- The storage of the token contract is what the history tells. -/
structure ConsentInv (s : ERC721.State) (calls : List Call) : Prop where
  owners : ∀ id, s.owners id = holder calls id
  operators : ∀ a p, s.operatorApprovals a p = operatorBy calls a p
  approvals : ∀ id, s.tokenApprovals id = approvedBy calls id
  /-- A token that does not exist was never moved. -/
  unmoved : ∀ id, s.owners id = zeroAddress → ∀ d ∈ calls, d.hands id = none
  /-- Whoever is approved was approved by somebody who spoke for the owner. -/
  entrusted : ∀ id, s.tokenApprovals id ≠ zeroAddress →
    Entrusted calls (s.owners id) (s.tokenApprovals id) id
  /-- Every transfer was consented to when it was made. -/
  consented : ∀ pre c post a b id, calls = pre ++ c :: post → c.Moves a b id →
    c.msg.sender ≠ zeroAddress → Consented pre c.msg.sender a b id

theorem consentInv_init : ConsentInv World.init.toState World.init.calls where
  owners := fun _ => rfl
  operators := fun _ _ => rfl
  approvals := fun _ => rfl
  unmoved := fun _ _ _ h => absurd h List.not_mem_nil
  entrusted := fun _ h => absurd rfl h
  consented := fun pre _ _ _ _ _ h =>
    absurd h.symm (List.append_ne_nil_of_right_ne_nil pre (List.cons_ne_nil _ _))

variable {s s' : ERC721.State} {calls : List Call} {w w' : World} {c : Call}

/-- The authority that the contract asks for is the consent of the owner. -/
theorem ConsentInv.authorised_iff (h : ConsentInv s calls) {spender : Address} {id : ℕ}
    (hspender : spender ≠ zeroAddress) :
    s.Authorised spender id ↔ MayMove calls (s.owners id) spender id := by
  unfold ERC721.State.Authorised MayMove SpeaksFor
  rw [h.operators, ← or_assoc]
  refine or_congr Iff.rfl ⟨?_, ?_⟩
  · rintro rfl
    exact h.entrusted id hspender
  · intro hentrusted
    rw [h.approvals, hentrusted.approvedBy_eq]

/-- What every call but a mint does to the storage, it does to the history. -/
theorem ConsentInv.snoc (h : ConsentInv s calls) (hc : c.mints = false)
    (howners : ∀ id, s'.owners id = (c.hands id).getD (s.owners id))
    (hoperators : ∀ a p, s'.operatorApprovals a p =
      (c.empowers a p).getD (s.operatorApprovals a p))
    (happrovals : ∀ id, s'.tokenApprovals id = (c.approves id).getD (s.tokenApprovals id))
    (hhands : ∀ id b, c.hands id = some b → b ≠ zeroAddress)
    (hentrusts : ∀ id b, c.approves id = some b → b ≠ zeroAddress →
      c.op = .approve b id ∧ SpeaksFor calls (s'.owners id) c.msg.sender)
    (hmoves : ∀ a b id, c.Moves a b id → c.msg.sender ≠ zeroAddress →
      Consented calls c.msg.sender a b id) : ConsentInv s' (calls ++ [c]) where
  owners := by
    intro id
    rw [howners, holder_snoc_of_not_mints hc, h.owners]
  operators := by
    intro a p
    rw [hoperators, operatorBy, Register.after_snoc, h.operators]
    rfl
  approvals := by
    intro id
    rw [happrovals, approvedBy, Register.after_snoc, h.approvals]
    rfl
  unmoved := by
    intro id hfree d hd
    rw [howners] at hfree
    cases hhand : c.hands id with
    | some b =>
        rw [hhand] at hfree
        exact absurd hfree (hhands id b hhand)
    | none =>
        rw [hhand] at hfree
        rcases List.mem_append.mp hd with hold | hnew
        · exact h.unmoved id hfree d hold
        · exact List.mem_singleton.mp hnew ▸ hhand
  entrusted := by
    intro id hne
    cases happ : c.approves id with
    | some b =>
        rw [happrovals, happ, Option.getD_some] at hne ⊢
        obtain ⟨hop, hspeaks⟩ := hentrusts id b happ hne
        exact ⟨calls, c, [], rfl, hop, hspeaks, fun d hd => absurd hd List.not_mem_nil⟩
    | none =>
        -- the approval in force is an old one, and the token is where it was
        rw [happrovals, happ, Option.getD_none] at hne ⊢
        rw [howners, Call.hands_of_approves_none happ, Option.getD_none]
        exact (h.entrusted id hne).snoc happ
  consented := by
    intro pre d post a b id hsplit hmove hsender
    rcases Register.of_snoc_eq_split hsplit with ⟨rfl, rfl⟩ | ⟨post', _, hold⟩
    · exact hmoves a b id hmove hsender
    · exact h.consented pre d post' a b id hold hmove hsender

/-- The calls that have nothing to do with the tokens. -/
theorem ConsentInv.idle (h : ConsentInv s calls) (hc : c.mints = false)
    (happroves : ∀ id, c.approves id = none)
    (hempowers : ∀ owner operator, c.empowers owner operator = none) :
    ConsentInv s (calls ++ [c]) := by
  have hhands : ∀ id, c.hands id = none := fun id => Call.hands_of_approves_none (happroves id)
  refine h.snoc hc ?_ ?_ ?_ ?_ ?_ ?_
  · simp [hhands]
  · simp [hempowers]
  · simp [happroves]
  · simp [hhands]
  · simp [happroves]
  · intro a b id hmove
    exact absurd hmove (Call.Moves.of_hands_none hhands)

/-- An approval, by somebody who may give it. -/
theorem ConsentInv.tokenApproved (h : ConsentInv s calls) {msg : Msg} {b : Address} {tokenId : ℕ}
    (hspeaks : SpeaksFor calls (s.owners tokenId) msg.sender) :
    ConsentInv (s.tokenApproved b tokenId) (calls ++ [⟨msg, .approve b tokenId⟩]) := by
  refine h.snoc rfl (fun _ => rfl) (fun _ _ => rfl) ?_ (fun _ _ hb => nomatch hb) ?_ ?_
  · intro id
    by_cases hid : id = tokenId
    · simp [Call.approves, hid]
    · simp [Call.approves, hid, Ne.symm hid]
  · intro id b' happ _
    obtain ⟨rfl, rfl⟩ : tokenId = id ∧ b = b' := by simpa [Call.approves] using happ
    exact ⟨rfl, hspeaks⟩
  · intro a b id hmove
    exact absurd hmove (Call.Moves.of_hands_none fun _ => rfl)

/-- An operator is appointed or dismissed. -/
theorem ConsentInv.operatorSet (h : ConsentInv s calls) (msg : Msg) (operator : Address)
    (approved : Bool) :
    ConsentInv (s.operatorSet msg.sender operator approved)
      (calls ++ [⟨msg, .setApprovalForAll operator approved⟩]) := by
  refine h.snoc rfl (fun _ => rfl) ?_ (fun _ => rfl) (fun _ _ hb => nomatch hb)
    (fun _ _ hb => nomatch hb) ?_
  · intro a p
    by_cases ha : a = msg.sender
    · subst ha
      by_cases hp : p = operator
      · simp [Call.empowers, hp]
      · simp [Call.empowers, hp, Ne.symm hp]
    · simp [Call.empowers, ha, Ne.symm ha]
  · intro a b id hmove
    exact absurd hmove (Call.Moves.of_hands_none fun _ => rfl)

/-- A transfer, by somebody who may ask for it. -/
theorem ConsentInv.tokenMoved (h : ConsentInv s calls) {a b : Address} {tokenId : ℕ}
    (hmove : c.Moves a b tokenId) (hauth : s.Authorised c.msg.sender tokenId)
    (howner : s.owners tokenId = a) (hexists : a ≠ zeroAddress) (hzero : b ≠ zeroAddress) :
    ConsentInv (s.tokenMoved a b tokenId) (calls ++ [c]) := by
  refine h.snoc hmove.not_mints ?_ ?_ ?_ ?_ ?_ ?_
  · intro id
    by_cases hid : id = tokenId
    · simp [hmove.hands_eq, hid]
    · simp [hmove.hands_eq, hid, Ne.symm hid]
  · intro o p
    rw [hmove.empowers_eq]
    rfl
  · intro id
    by_cases hid : id = tokenId
    · simp [hmove.approves_eq, hid]
    · simp [hmove.approves_eq, hid, Ne.symm hid]
  · intro id b' hb
    rw [hmove.hands_eq] at hb
    split at hb
    · exact Option.some.inj hb ▸ hzero
    · cases hb
  · -- nobody is approved any more
    intro id b' hb hne
    rw [hmove.approves_eq] at hb
    split at hb
    · exact absurd (Option.some.inj hb).symm hne
    · cases hb
  · intro a' b' id hmove' hsender
    obtain ⟨rfl, rfl, rfl⟩ := hmove.unique hmove'
    refine ⟨h.owners id ▸ howner, hexists, hzero, ?_⟩
    rw [← howner]
    exact (h.authorised_iff hsender).mp hauth

/-- A mint makes a token that was never there, and nobody is approved for it. -/
theorem ConsentInv.minted (h : ConsentInv s calls) {msg : Msg} {question context uri : String}
    {tokenId : ℕ} (hid : ((mintLog calls).length + 1) % 2 ^ 256 = tokenId)
    (hfree : s.owners tokenId = zeroAddress) (hnone : s.tokenApprovals tokenId = zeroAddress)
    (hfresh : ∀ info ∈ mintLog calls, info.templateId ≠ tokenId)
    (hzero : msg.sender ≠ zeroAddress) :
    ConsentInv (s.tokenMinted msg.sender tokenId)
      (calls ++ [⟨msg, .mintTemplate question context uri⟩]) := by
  have hlog : mintLog (calls ++ [⟨msg, .mintTemplate question context uri⟩]) =
      mintLog calls ++ [{ templateId := tokenId
                          ownerAddress := msg.sender
                          question := question
                          context := context
                          createTime := msg.timestamp
                          templateURI := uri }] := by
    rw [mintLog_snoc, ← hid]
    rfl
  have hminter : ∀ id, minter (calls ++ [⟨msg, .mintTemplate question context uri⟩]) id =
      if id = tokenId then msg.sender else minter calls id := by
    intro id
    unfold minter
    rw [hlog, List.find?_append]
    by_cases heq : id = tokenId
    · subst heq
      have hold : (mintLog calls).find? (fun info => info.templateId = id) = none :=
        List.find?_eq_none.mpr fun info hinfo => by simpa using hfresh info hinfo
      simp [hold]
    · simp [heq, Ne.symm heq]
  constructor
  case owners =>
    intro id
    rw [holder, Register.after_snoc, hminter]
    by_cases heq : id = tokenId
    · subst heq
      have hleft : Register.after (Call.hands id) msg.sender calls = msg.sender :=
        Register.after_of_none (h.unmoved id hfree)
      simp [Call.hands, hleft]
    · simpa [Call.hands, heq, holder] using h.owners id
  case operators =>
    intro a p
    rw [operatorBy, Register.after_snoc]
    exact h.operators a p
  case approvals =>
    intro id
    rw [approvedBy, Register.after_snoc]
    exact h.approvals id
  case unmoved =>
    intro id hid' d hd
    by_cases heq : id = tokenId
    · subst heq
      exact absurd hid' (by simpa using hzero)
    · rcases List.mem_append.mp hd with hold | hnew
      · exact h.unmoved id (by simpa [heq] using hid') d hold
      · rw [List.mem_singleton.mp hnew]
        rfl
  case entrusted =>
    intro id hne
    have hother : id ≠ tokenId := by
      rintro rfl
      exact hne hnone
    have hold := (h.entrusted id hne).snoc (c := ⟨msg, .mintTemplate question context uri⟩) rfl
    simpa [hother] using hold
  case consented =>
    intro pre d post a b id hsplit hmove hsender
    rcases Register.of_snoc_eq_split hsplit with ⟨rfl, rfl⟩ | ⟨post', _, hold⟩
    · exact absurd hmove (Call.Moves.of_hands_none fun _ => rfl)
    · exact h.consented pre d post' a b id hold hmove hsender

/-- **Refinement**: every call does to the storage what it does to the history. -/
theorem Step.consentInv (hstep : Step w c w') (hinv : MintInv w) (hreplays : Replays w.toState)
    (h : ConsentInv w.toState w.calls) : ConsentInv w'.toState w'.calls := by
  cases hstep with
  | mintTemplate rs hzero hfree =>
      have hnone : w.tokenApprovals w.templateId = zeroAddress := by
        rw [hreplays.approvals]
        exact hreplays.valid.approvedIn_eq_zero (hreplays.owners ▸ hfree)
      exact h.minted hinv.counter.symm hfree hnone (fun _ hinfo => hinv.fresh hfree hinfo) hzero
  | newPrompMinted => exact h.idle rfl (fun _ => rfl) (fun _ _ => rfl)
  | setTokenURI howner => exact h.idle rfl (fun _ => rfl) (fun _ _ => rfl)
  | approve hexists hother hauth =>
      rw [h.operators] at hauth
      exact h.tokenApproved hauth
  | setApprovalForAll hother => exact h.operatorSet _ _ _
  | transfer rs hop hauth howner hexists hzero => exact h.tokenMoved hop hauth howner hexists hzero
  | overwritten hother => exact h.idle rfl (fun _ => rfl) (fun _ _ => rfl)

theorem Observed.consentInv (h : ObservedFrom (fun _ _ => True) World.init st w) :
    ConsentInv w.toState w.calls :=
  (Observed.token (X := fun s calls => Replays s ∧ ConsentInv s calls)
    ⟨ERC721.replays_init, consentInv_init⟩
    (fun _ _ _ hinv hv hs => ⟨hs.replays hv.1, hs.consentInv hinv hv.1 hv.2⟩) h).2

/-! ## Custody -/

/-- A function of the token contract does not see what is recorded about the calls. -/
theorem onToken_succeeds_iff {f : ERC721.State → ERC721.Result ERC721.State} (c : Call)
    (w : World) : (∃ w', onToken f (w.record c) = .ok w') ↔ ∃ s, f w.toState = .ok s := by
  constructor
  · rintro ⟨w', hw⟩
    obtain ⟨s, hs, _⟩ := onToken_ok_iff.mp hw
    exact ⟨s, hs⟩
  · rintro ⟨s, hs⟩
    exact ⟨_, onToken_ok_iff.mpr ⟨s, hs, rfl⟩⟩

/-- A call that asks its receiver, if that is a contract, goes through if its first half
does and the receiver accepts. -/
theorem finish_asking_iff (c : Call) (recv : Receiver) (f out done : World → World)
    (r : ERC721.Result World) :
    (∃ w', Stage.finish f (afterCallback c recv) (do
      let w₁ ← r
      if isContract recv then return .out (out w₁) else return .done (done w₁)) = .ok w') ↔
    (∃ w₁, r = .ok w₁) ∧ (isContract recv = false ∨ answered recv = .ok ()) := by
  cases r with
  | error e =>
      constructor
      · rintro ⟨w', h⟩
        cases h
      · rintro ⟨⟨w₁, h⟩, _⟩
        cases h
  | ok w₁ =>
      rw [bind_of_ok rfl, Stage.finish_ite]
      by_cases hc : isContract recv = true
      · rw [if_pos hc]
        constructor
        · rintro ⟨w', h⟩
          exact ⟨⟨w₁, rfl⟩, Or.inr (afterCallback_ok_iff.mp h).1⟩
        · rintro ⟨_, hnone | hanswer⟩
          · cases hc.symm.trans hnone
          · exact ⟨_, afterCallback_ok_iff.mpr ⟨hanswer, rfl⟩⟩
      · rw [if_neg hc]
        exact iff_of_true ⟨_, rfl⟩ ⟨⟨w₁, rfl⟩, Or.inl (by simpa using hc)⟩

/-- A transfer goes through if the token contract lets it, and the receiver of the
token, if it is asked, accepts. -/
theorem dispatch_moves_succeeds_iff {a b : Address} {tokenId : ℕ} (hmove : c.Moves a b tokenId)
    (recv : Receiver) (f : World → World) :
    (∃ w', dispatch c recv f w = .ok w') ↔
      (∃ s, ERC721.transferFrom c.msg a b tokenId w.toState = .ok s) ∧
        (c.op = .transferFrom a b tokenId ∨ isContract recv = false ∨
          answered recv = .ok ()) := by
  rcases c with ⟨msg, op⟩
  rcases hmove with rfl | ⟨data, rfl⟩
  · rw [← onToken_succeeds_iff ⟨msg, .transferFrom a b tokenId⟩ w]
    exact ⟨fun h => ⟨h, Or.inl rfl⟩, fun h => h.1⟩
  · rw [← onToken_succeeds_iff ⟨msg, .safeTransferFrom a b tokenId data⟩ w, dispatch_eq_phases]
    refine (finish_asking_iff _ recv f _ _ _).trans (and_congr_right fun _ => ?_)
    exact (or_iff_right fun hop => nomatch hop).symm

/-- The token contract lets a transfer through if it is consented to. -/
theorem ConsentInv.transferFrom_iff (h : ConsentInv s calls) {msg : Msg}
    (hsender : msg.sender ≠ zeroAddress) (a b : Address) (id : ℕ) :
    (∃ s', ERC721.transferFrom msg a b id s = .ok s') ↔
      Consented calls msg.sender a b id := by
  unfold Consented
  rw [← h.owners]
  constructor
  · rintro ⟨s', hs⟩
    obtain ⟨hauth, howner, hexists, hzero, _⟩ := ERC721.transferFrom_ok_iff.mp hs
    refine ⟨howner, hexists, hzero, ?_⟩
    rw [← howner]
    exact (h.authorised_iff hsender).mp hauth
  · rintro ⟨howner, hexists, hzero, hmay⟩
    rw [← howner] at hmay
    have hauth := (h.authorised_iff hsender).mpr hmay
    exact ⟨_, ERC721.transferFrom_ok_iff.mpr ⟨hauth, howner, hexists, hzero, rfl⟩⟩

/-- It lets an approval through if somebody gives it who speaks for the owner, and not to
the owner. -/
theorem ConsentInv.approve_iff (h : ConsentInv s calls) (msg : Msg) (b : Address) (id : ℕ) :
    (∃ s', ERC721.approve msg b id s = .ok s') ↔
      holder calls id ≠ zeroAddress ∧ b ≠ holder calls id ∧
        SpeaksFor calls (holder calls id) msg.sender := by
  unfold SpeaksFor
  rw [← h.owners, ← h.operators]
  constructor
  · rintro ⟨s', hs⟩
    obtain ⟨hexists, hother, hauth, _⟩ := ERC721.approve_ok_iff.mp hs
    exact ⟨hexists, hother, hauth⟩
  · rintro ⟨hexists, hother, hauth⟩
    exact ⟨_, ERC721.approve_ok_iff.mpr ⟨hexists, hother, hauth, rfl⟩⟩

/-- **Custody.** Wherever outside code runs, between calls or inside a callback: a
token belongs to whoever the history says; every transfer in the history had the
consent of the owner when it was made; and a transfer goes through exactly if it
has that consent and the receiver accepts. The zero address, which sends no
transactions, counts as approved for every token without an approval. -/
theorem custody (h : ObservedFrom (fun _ _ => True) World.init st w) :
    (∀ id a, ownerOf id w = .ok a ↔ a ≠ zeroAddress ∧ holder w.calls id = a) ∧
    (∀ pre d post a b id, w.calls = pre ++ d :: post → d.Moves a b id →
      d.msg.sender ≠ zeroAddress → Consented pre d.msg.sender a b id) ∧
    ∀ c a b id recv f, Call.Moves c a b id → c.msg.sender ≠ zeroAddress →
      ((∃ w', dispatch c recv f w = .ok w') ↔ Consented w.calls c.msg.sender a b id ∧
        (c.op = .transferFrom a b id ∨ isContract recv = false ∨ answered recv = .ok ())) := by
  have hinv := Observed.consentInv h
  refine ⟨?_, hinv.consented, ?_⟩
  · intro id a
    rw [← hinv.owners]
    exact ERC721.ownerOf_ok_iff
  · intro c a b id recv f hmove hsender
    rw [dispatch_moves_succeeds_iff hmove recv f, hinv.transferFrom_iff hsender a b id]

/-- Alice's transfer inside the callback was consented to: she had just minted the
token. Afterwards it is not hers to give any more. -/
theorem custody_reentrant :
    Consented [⟨⟨alice, 1⟩, .mintTemplate "q" "c" "u"⟩] alice alice bob 1 ∧
      ¬ Consented (worldAfter reentrantTxs).calls alice alice bob 1 := by
  have halice : alice ≠ zeroAddress := by decide
  obtain ⟨_, hconsented, hgoes⟩ := custody (reachable_worldAfter reentrantTxs)
  constructor
  · exact hconsented [⟨⟨alice, 1⟩, .mintTemplate "q" "c" "u"⟩]
      ⟨⟨alice, 1⟩, .transferFrom alice bob 1⟩ [⟨⟨bob, 2⟩, .mintTemplate "q" "c" "w"⟩]
      alice bob 1 (by decide +kernel) (Or.inl rfl) halice
  · intro hagain
    obtain ⟨w', hw⟩ := (hgoes ⟨⟨alice, 3⟩, .transferFrom alice bob 1⟩ alice bob 1
      ⟨0, .undecodable⟩ id (Or.inl rfl) halice).mpr ⟨hagain, Or.inl rfl⟩
    have hfails : ∀ v, dispatch ⟨⟨alice, 3⟩, .transferFrom alice bob 1⟩ ⟨0, .undecodable⟩ id
        (worldAfter reentrantTxs) ≠ .ok v := by
      intro v hv
      obtain ⟨s, hs, _⟩ := onToken_ok_iff.mp hv
      have howner := (ERC721.transferFrom_ok_iff.mp hs).2.1
      exact absurd howner (by decide +kernel)
    exact hfails w' hw

end Yes3.LyonTemplate
