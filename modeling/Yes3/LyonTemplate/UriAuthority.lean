import Yes3.LyonTemplate.OwnerIndex

/-!
# Yes3.LyonTemplate.UriAuthority — who may set the URI of a template

`setTokenURI` asks for the owner on record, the account that minted the template,
and not for the owner of the token. A transfer moves the token and leaves the
record as it is.

* `UriLaw` is the law that the authority goes with the token.
* `uri_authority` says for which callers, ids and worlds it holds, and that it
  holds throughout the runs whose transfers give no token away.
-/

namespace Yes3.LyonTemplate

open CallTree
open LyonPrompt (Receiver alice bob)

/-- The authority to set the URI of a template goes with its token. -/
structure UriLaw (msg : Msg) (id : ℕ) (w : World) : Prop where
  allowed : ∀ uri, (∃ w', setTokenURI msg id uri w = .ok w') ↔
    ERC721.tokenExists id w.toState = true ∧ ownerOf id w = .ok msg.sender
  /-- The view shows the new URI, and nothing else changes. -/
  effect : ∀ uri w', setTokenURI msg id uri w = .ok w' → tokenURI id w' = .ok uri ∧
    w' = { w with
      ownershipRecord := Function.update w.ownershipRecord id
        { w.ownershipRecord id with templateURI := uri } }
  /-- A call that fails changes nothing. -/
  failed : ∀ uri e, setTokenURI msg id uri w = .error e → settle w (setTokenURI msg id uri w) = w

/-- The owner on record is the owner of the token, which exists; or the caller is
neither of the two. -/
def AuthorityAgrees (msg : Msg) (id : ℕ) (w : World) : Prop :=
  (w.owners id ≠ zeroAddress ∧ (w.ownershipRecord id).ownerAddress = w.owners id) ∨
  (msg.sender ≠ (w.ownershipRecord id).ownerAddress ∧
    ¬ (w.owners id ≠ zeroAddress ∧ msg.sender = w.owners id))

variable {w w' : World} {c : Call}

/-- The call is accepted exactly from the owner on record. -/
theorem setTokenURI_succeeds_iff (msg : Msg) (id : ℕ) (uri : String) :
    (∃ w', setTokenURI msg id uri w = .ok w') ↔
      (w.ownershipRecord id).ownerAddress = msg.sender := by
  constructor
  · rintro ⟨w', h⟩
    exact (setTokenURI_ok_iff.mp h).1
  · intro howner
    exact ⟨_, setTokenURI_ok_iff.mpr ⟨howner, rfl⟩⟩

/-- The owner of a token that exists. -/
theorem ownerOf_sender_iff (msg : Msg) (id : ℕ) :
    (ERC721.tokenExists id w.toState = true ∧ ownerOf id w = .ok msg.sender) ↔
      w.owners id ≠ zeroAddress ∧ msg.sender = w.owners id := by
  rw [ERC721.tokenExists_eq_true_iff]
  unfold ownerOf
  rw [ERC721.ownerOf_ok_iff]
  constructor
  · rintro ⟨hexists, _, howner⟩
    exact ⟨hexists, howner.symm⟩
  · rintro ⟨hexists, howner⟩
    exact ⟨hexists, howner ▸ hexists, howner.symm⟩

theorem uriLaw_iff (msg : Msg) (id : ℕ) (w : World) :
    UriLaw msg id w ↔ AuthorityAgrees msg id w := by
  -- the law compares two checks: the owner on record, and the owner of the token
  have hagrees : AuthorityAgrees msg id w ↔ ((w.ownershipRecord id).ownerAddress = msg.sender ↔
      w.owners id ≠ zeroAddress ∧ msg.sender = w.owners id) := by
    unfold AuthorityAgrees
    constructor
    · rintro (⟨hexists, hsame⟩ | ⟨hrecord, hother⟩)
      · rw [hsame]
        exact ⟨fun h => ⟨hexists, h.symm⟩, fun h => h.2.symm⟩
      · exact ⟨fun h => absurd h.symm hrecord, fun h => absurd h hother⟩
    · intro h
      by_cases hother : w.owners id ≠ zeroAddress ∧ msg.sender = w.owners id
      · exact Or.inl ⟨hother.1, (h.mpr hother).trans hother.2⟩
      · exact Or.inr ⟨fun hrecord => hother (h.mp hrecord.symm), hother⟩
  rw [hagrees]
  constructor
  · intro hlaw
    rw [← setTokenURI_succeeds_iff msg id "", ← ownerOf_sender_iff]
    exact hlaw.allowed ""
  · intro h
    constructor
    case allowed =>
      intro uri
      rw [setTokenURI_succeeds_iff, ownerOf_sender_iff]
      exact h
    case effect =>
      intro uri w' hset
      rcases setTokenURI_ok_iff.mp hset with ⟨howner, rfl⟩
      refine ⟨tokenURI_ok_iff.mpr ⟨(h.mp howner).1, ?_⟩, rfl⟩
      simp [World.uriSet]
    case failed =>
      intro uri e hset
      rw [hset]
      rfl

/-! ## Runs without transfers to others -/

/-- The owners on record are the owners of the tokens. -/
def RecordsOwners (w : World) : Prop :=
  ∀ id, (w.ownershipRecord id).ownerAddress = w.owners id

/-- A call that gives no token to another account keeps the records right. -/
theorem Step.recordsOwners (hstep : Step w c w') (hkeeps : KeepsOwner c w) (h : RecordsOwners w) :
    RecordsOwners w' := by
  intro x
  cases hstep with
  | @mintTemplate msg question context uri rs hzero hfree =>
      by_cases hx : x = w.templateId
      · subst hx
        simp [World.logged, World.halfMinted]
      · simpa [World.logged, World.halfMinted, hx] using h x
  | @setTokenURI msg id uri howner =>
      by_cases hx : x = id
      · subst hx
        simpa using h x
      · simpa [hx] using h x
  | @transfer msg op a b tokenId rs hop hauth howner hexists hzero =>
      have hsame : b = w.owners tokenId := by
        rcases hop with rfl | ⟨data, rfl⟩
        · exact hkeeps a b tokenId rfl
        · exact hkeeps a b tokenId rfl
      by_cases hx : x = tokenId
      · subst hx
        simpa [hsame] using h x
      · simpa [hx] using h x
  | _ => exact h x

/-- **The authority goes with the token exactly as long as the record does.** In
any world, the law holds of a caller and an id if and only if the owner on record
is the owner of the token, or the caller is neither of the two. In runs whose
calls give no token to another account, it holds between two calls for every id
and every caller but the zero address. -/
theorem uri_authority (w : World) :
    (∀ msg id, UriLaw msg id w ↔ AuthorityAgrees msg id w) ∧
    (ReachableVia KeepsOwner w →
      ∀ (msg : Msg) (id : ℕ), msg.sender ≠ zeroAddress → UriLaw msg id w) := by
  refine ⟨fun msg id => uriLaw_iff msg id w, ?_⟩
  intro h msg id hsender
  have hrecords : RecordsOwners w := by
    refine (Observed.invariant (X := RecordsOwners) ?_ ?_ good_init ?_ h).2
    · intro c v msg question context uri _ hkeeps
      exact hkeeps
    · intro v c v' hv hkeeps hstep
      exact hstep.recordsOwners hkeeps hv
    · intro x
      rfl
  rw [uriLaw_iff]
  by_cases hexists : w.owners id = zeroAddress
  · -- no token, and no owner on record
    refine Or.inr ⟨?_, fun hother => hother.1 hexists⟩
    rw [hrecords id, hexists]
    exact hsender
  · exact Or.inl ⟨hexists, hrecords id⟩

theorem uri_authority_of_minter : UriLaw ⟨alice, 2⟩ 1
    (worldAfter [callTx alice 1 (.mintTemplate "q" "c" "u")]) := by
  have hreach : ReachableVia KeepsOwner (worldAfter [callTx alice 1 (.mintTemplate "q" "c" "u")]) :=
    reachableVia_worldAfter
      ⟨fun _ => ⟨keepsOwner_of_no_transfer rfl, fun _ _ => trivial⟩, trivial⟩
  exact (uri_authority _).2 hreach ⟨alice, 2⟩ 1 (by decide)

/-- Alice mints a template and gives it to Bob. Then Bob cannot set its URI, and
Alice still can. -/
theorem uri_authority_stays_with_minter :
    Reachable (worldAfter giveawayTxs) ∧
    ownerOf 1 (worldAfter giveawayTxs) = .ok bob ∧
    setTokenURI ⟨bob, 3⟩ 1 "v" (worldAfter giveawayTxs) =
      .error (.require "Not Authorized because you are not the owner") ∧
    (∃ w', setTokenURI ⟨alice, 3⟩ 1 "v" (worldAfter giveawayTxs) = .ok w') ∧
    ¬ ∀ w, Reachable w → ∀ msg id, UriLaw msg id w := by
  have hreach := reachable_worldAfter giveawayTxs
  have howner : ownerOf 1 (worldAfter giveawayTxs) = .ok bob := by
    decide +kernel
  have hrecord : ((worldAfter giveawayTxs).ownershipRecord 1).ownerAddress = alice := by
    decide +kernel
  have hother : ((worldAfter giveawayTxs).ownershipRecord 1).ownerAddress ≠ bob := by
    rw [hrecord]
    decide
  refine ⟨hreach, howner, require_bind_of_neg hother _ _,
    (setTokenURI_succeeds_iff ⟨alice, 3⟩ 1 "v").mpr hrecord, ?_⟩
  intro hall
  have hexists : ERC721.tokenExists 1 (worldAfter giveawayTxs).toState = true := by
    decide +kernel
  have hbob := ((hall _ hreach ⟨bob, 3⟩ 1).allowed "v").mpr ⟨hexists, howner⟩
  exact hother ((setTokenURI_succeeds_iff ⟨bob, 3⟩ 1 "v").mp hbob)

end Yes3.LyonTemplate
