import Yes3.LyonTemplate.MintLog

/-!
# Yes3.LyonTemplate.HalfMinted — what a minter sees in its callback

Between two calls a token that exists has its record, in its minter's list and
under the next free number. `mintTemplate` makes the token first and calls the
minter before it writes anything else, so inside this callback none of it holds
of the token just made.

* `WellMinted` is the property, for one world.
* `wellMinted_iff_no_pending` says in which of the worlds where outside code runs
  it holds: in all but those in the callback of a mint, as long as the counter
  has not come round to numbers given out before.
-/

namespace Yes3.LyonTemplate

open CallTree
open LyonPrompt (Receiver alice bob)

/-- No token is half minted. -/
structure WellMinted (w : World) : Prop where
  /-- Every token has its record, and its minter's list has it. -/
  recorded : ∀ id, ERC721.tokenExists id w.toState = true →
    (w.ownershipRecord id).templateId = id ∧
    (w.ownershipRecord id).ownerAddress ≠ zeroAddress ∧
    id ∈ queryAllTemplatesByAddress (w.ownershipRecord id).ownerAddress w
  /-- Its URI is the one given at the mint, or set since. -/
  uri : ∀ id, ERC721.tokenExists id w.toState = true →
    ∃ info ∈ mintLog w.calls, info.templateId = id ∧ tokenURI id w = .ok info.templateURI
  /-- The number of the next token is free. -/
  next : ERC721.tokenExists w.templateId w.toState = false

variable {w : World}

/-- The counter comes round after `2^256` mints, and then the next number is that
of the first token. -/
theorem MintInv.next_free_iff (h : MintInv w) :
    w.owners w.templateId = zeroAddress ↔ mintCount w < 2 ^ 256 := by
  have htaken : w.owners w.templateId ≠ zeroAddress ↔
      ∃ k < mintCount w, (k + 1) % 2 ^ 256 = (mintCount w + 1) % 2 ^ 256 := by
    have hmem : (∃ info ∈ mintLog w.calls, info.templateId = w.templateId) ↔
        w.templateId ∈ (mintLog w.calls).map TemplateMetaData.templateId := by
      simp
    rw [h.minted, hmem, h.ids, h.counter, length_mintLog]
    simp [mintCount]
  constructor
  · intro hfree
    by_contra hmax
    refine htaken.mpr ⟨mintCount w - 2 ^ 256, ?_, ?_⟩ hfree
    · omega
    · omega
  · intro hmax
    by_contra hne
    rcases htaken.mp hne with ⟨k, hk, hmod⟩
    omega

/-- Between two calls no token is half minted, until the counter comes round. -/
theorem MintInv.wellMinted (h : MintInv w) (hmax : mintCount w < 2 ^ 256) : WellMinted w where
  recorded := by
    intro id hid
    rw [ERC721.tokenExists_eq_true_iff] at hid
    rcases h.mem_log hid with ⟨hlog, htemplate⟩
    exact ⟨htemplate, h.owned _ hlog, (h.mem_templateByAddress _ id).mpr ⟨hid, rfl⟩⟩
  uri := by
    intro id hid
    rw [ERC721.tokenExists_eq_true_iff] at hid
    rcases h.mem_log hid with ⟨hlog, htemplate⟩
    exact ⟨_, hlog, htemplate, tokenURI_ok_iff.mpr ⟨hid, rfl⟩⟩
  next := ERC721.tokenExists_eq_false_iff.mpr (h.next_free_iff.mpr hmax)

/-- **Half-minted tokens are observable exactly in the callback of their mint.**
Where outside code runs, no token is half minted if and only if no mint is
pending, and there have been fewer than `2^256` mints. -/
theorem wellMinted_iff_no_pending {st : List (Call × Receiver)}
    (h : ObservedFrom (fun _ _ => True) World.init st w) :
    WellMinted w ↔ (∀ ik ∈ st, ik.1.mints = false) ∧ mintCount w < 2 ^ 256 := by
  rcases Observed.mintInv good_init mintInv_init h with ⟨hgood, hinv⟩
  have hpending : pendingMints st = [] ↔ ∀ ik ∈ st, ik.1.mints = false := by
    simp [pendingMints]
  rw [← hpending]
  constructor
  · intro hwell
    have hfree := ERC721.tokenExists_eq_false_iff.mp hwell.next
    have hnone := hgood.no_pending hfree
    rw [unwind_of_no_pending hnone] at hinv
    exact ⟨hnone, hinv.next_free_iff.mp hfree⟩
  · rintro ⟨hnone, hmax⟩
    rw [unwind_of_no_pending hnone] at hinv
    exact hinv.wellMinted hmax

theorem wellMinted_reentrant : WellMinted (worldAfter reentrantTxs) :=
  (wellMinted_iff_no_pending (reachable_worldAfter reentrantTxs)).mpr
    ⟨fun _ h => absurd h List.not_mem_nil, by decide +kernel⟩

/-- The mint of a contract of Alice's. -/
def firstMint : Call := ⟨⟨alice, 1⟩, .mintTemplate "q" "c" "u"⟩

/-- What Alice's contract sees when the mint calls it. -/
def firstCallback : World :=
  World.init.halfMinted firstMint [⟨alice, alice, zeroAddress, 1, []⟩]

/-- In the callback Alice owns the token 1, which has no URI and is in nobody's
list, and the next number is 1. -/
theorem half_minted_in_callback :
    ObservedFrom (fun _ _ => True) World.init
      [(firstMint, ⟨1, .returned onERC721ReceivedSelector⟩)] firstCallback ∧
    ownerOf 1 firstCallback = .ok alice ∧ tokenURI 1 firstCallback = .ok "" ∧
    queryAllTemplatesByAddress alice firstCallback = [] ∧ firstCallback.templateId = 1 ∧
    ¬ ∀ st w, ObservedFrom (fun _ _ => True) World.init st w → WellMinted w := by
  have hobserved : ObservedFrom (fun _ _ => True) World.init
      [(firstMint, ⟨1, .returned onERC721ReceivedSelector⟩)] firstCallback :=
    TwoPhase.Observed.enter firstMint _ TwoPhase.Observed.init trivial rfl
  refine ⟨hobserved, by decide +kernel, by decide +kernel, rfl, rfl, ?_⟩
  intro hall
  have hnext := (hall _ _ hobserved).next
  have hexists : ERC721.tokenExists firstCallback.templateId firstCallback.toState = true := by
    decide +kernel
  rw [hexists] at hnext
  cases hnext

end Yes3.LyonTemplate
