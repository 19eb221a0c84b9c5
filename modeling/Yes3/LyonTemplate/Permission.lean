import Yes3.LyonTemplate.Consent
import Yes3.LyonTemplate.HalfMinted

/-!
# Yes3.LyonTemplate.Permission — which calls go through

Whether a call goes through depends on the calls made so far, on the calls that are
pending, and on the answer of the receiver of the token, if it asks one. It depends on
nothing else, and in particular not on what the receiver does before it answers.

* `Permitted` is the condition, for every entry point.
* `mint_permitted_iff` and `uri_permitted_iff` are the two parts that a pending mint
  has a say in: it keeps the next number taken, and its own record has no owner yet.
* `goes_through_iff` is the result, for every world in which outside code runs.
-/

namespace Yes3.LyonTemplate

open CallTree
open LyonPrompt (Receiver alice bob)

/-! ## The condition -/

/-- A mint is not over yet. -/
def MintPending (st : List (Call × Receiver)) : Prop :=
  ∃ ik ∈ st, ik.1.mints = true

/-- The number of the last mint. -/
def lastNumber (calls : List Call) : ℕ := calls.countP Call.mints % 2 ^ 256

/-- The sender has minted the template, and the mint is over. -/
def MayEdit (st : List (Call × Receiver)) (calls : List Call) (sender : Address) (id : ℕ) :
    Prop :=
  (∃ info ∈ mintLog calls, info.templateId = id ∧ info.ownerAddress = sender) ∧
    ¬ (MintPending st ∧ id = lastNumber calls)

/-- The call is one that its sender may make after the calls `calls`, while those on
the stack are pending. -/
def Permitted (st : List (Call × Receiver)) (calls : List Call) (c : Call) : Prop :=
  match c.op with
  | .mintTemplate _ _ _ => ¬ MintPending st ∧ calls.countP Call.mints < 2 ^ 256
  | .newPrompMinted _ => True
  | .setTokenURI id _ => MayEdit st calls c.msg.sender id
  | .approve b id => holder calls id ≠ zeroAddress ∧ b ≠ holder calls id ∧
      SpeaksFor calls (holder calls id) c.msg.sender
  | .setApprovalForAll operator _ => operator ≠ c.msg.sender
  | .transferFrom a b id => Consented calls c.msg.sender a b id
  | .safeTransferFrom a b id _ => Consented calls c.msg.sender a b id

/-- The receiver takes the token, if it is asked. -/
def Takes (recv : Receiver) (c : Call) : Prop :=
  match c.op with
  | .mintTemplate _ _ _ => isContract recv = false ∨ answered recv = .ok ()
  | .safeTransferFrom _ _ _ _ => isContract recv = false ∨ answered recv = .ok ()
  | _ => True

section Permission

variable {st : List (Call × Receiver)} {w : World} {c : Call}

theorem not_mintPending_iff : ¬ MintPending st ↔ pendingMints st = [] := by
  simp [MintPending, pendingMints]

/-! ## While a mint is pending -/

/-- The next number is free unless it is that of a pending mint, or every number has
been given out. -/
theorem mint_permitted_iff (hgood : Good st w) (hinv : MintInv (unwind tail st w)) :
    w.owners w.templateId = zeroAddress ↔ ¬ MintPending st ∧ mintCount w < 2 ^ 256 := by
  rw [not_mintPending_iff]
  constructor
  · intro hfree
    have hnone := hgood.no_pending hfree
    rw [unwind_of_no_pending hnone] at hinv
    exact ⟨hnone, hinv.next_free_iff.mp hfree⟩
  · rintro ⟨hnone, hmax⟩
    rw [unwind_of_no_pending hnone] at hinv
    exact hinv.next_free_iff.mpr hmax

/-- Where nothing is pending, the owner of a record is on the log. -/
theorem MintInv.recordOwner_iff (hinv : MintInv w) {a : Address} (ha : a ≠ zeroAddress) (id : ℕ) :
    (w.ownershipRecord id).ownerAddress = a ↔
      ∃ info ∈ mintLog w.calls, info.templateId = id ∧ info.ownerAddress = a := by
  constructor
  · intro howner
    have hexists := (hinv.minted_iff_recorded id).mpr (howner.trans_ne ha)
    obtain ⟨hlog, htemplate⟩ := hinv.mem_log hexists
    exact ⟨_, hlog, htemplate, howner⟩
  · rintro ⟨info, hlog, rfl, howner⟩
    rw [hinv.recorded info hlog]
    exact howner

/-- The pending mint has the last number. -/
theorem templateId_of_pending (hgood : Good st w) (hinv : MintInv (unwind tail st w))
    (hpending : pendingMints st ≠ []) : w.templateId = lastNumber w.calls := by
  obtain ⟨hexists, _⟩ := hgood.pending hpending
  obtain ⟨msg, question, context, uri, _, hunwind⟩ := hgood.unwind_of_pending hpending
  rw [hunwind] at hinv
  have hcounter : uncheckedIncr w.templateId = ((mintLog w.calls).length + 1) % 2 ^ 256 :=
    hinv.counter
  -- the number is one that a record has, so it is a word
  have hlt : w.templateId < 2 ^ 256 := by
    obtain ⟨info, hinfo, hid⟩ := (hinv.minted w.templateId).mp hexists
    have hmem := List.mem_map_of_mem (f := TemplateMetaData.templateId) hinfo
    rw [hinv.ids, hid] at hmem
    obtain ⟨k, _, hk⟩ := List.mem_map.mp hmem
    rw [← hk]
    exact Nat.mod_lt _ (by decide)
  rw [length_mintLog] at hcounter
  unfold uncheckedIncr at hcounter
  unfold lastNumber
  omega

/-- The URI of a template may be set by its minter, once it is minted. -/
theorem uri_permitted_iff (hgood : Good st w) (hinv : MintInv (unwind tail st w)) {a : Address}
    (ha : a ≠ zeroAddress) (id : ℕ) :
    (w.ownershipRecord id).ownerAddress = a ↔ MayEdit st w.calls a id := by
  unfold MayEdit
  by_cases hpending : pendingMints st = []
  · rw [unwind_of_no_pending hpending] at hinv
    rw [hinv.recordOwner_iff ha]
    exact ⟨fun h => ⟨h, fun hp => not_mintPending_iff.mpr hpending hp.1⟩, fun h => h.1⟩
  · have hlast := templateId_of_pending hgood hinv hpending
    have hmint : MintPending st := by
      by_contra hnone
      exact hpending (not_mintPending_iff.mp hnone)
    obtain ⟨msg, question, context, uri, _, hunwind⟩ := hgood.unwind_of_pending hpending
    rw [hunwind] at hinv
    by_cases hid : id = w.templateId
    · -- the record of the pending mint is not written yet
      have hblank := (hgood.pending hpending).2
      rw [hid, hblank]
      constructor
      · intro hzero
        exact absurd hzero.symm ha
      · intro h
        exact absurd ⟨hmint, hlast⟩ h.2
    · have hrecord : (w.ownershipRecord id).ownerAddress =
          ((w.logged msg question context uri).ownershipRecord id).ownerAddress := by
        simp [World.logged, hid]
      rw [hrecord, hinv.recordOwner_iff ha]
      exact ⟨fun h => ⟨h, fun hp => hid (hp.2.trans hlast.symm)⟩, fun h => h.1⟩

/-! ## The next call -/

/-- A mint goes through if the next number is free and the receiver accepts. -/
theorem dispatch_mint_succeeds_iff {msg : Msg} {question context uri : String}
    (hsender : msg.sender ≠ zeroAddress) (recv : Receiver) (f : World → World) :
    (∃ w', dispatch ⟨msg, .mintTemplate question context uri⟩ recv f w = .ok w') ↔
      w.owners w.templateId = zeroAddress ∧
        (isContract recv = false ∨ answered recv = .ok ()) := by
  have hmint : (∃ s, ERC721.mint msg.sender w.templateId w.toState = .ok s) ↔
      w.owners w.templateId = zeroAddress := by
    constructor
    · rintro ⟨s, hs⟩
      exact (ERC721.mint_ok_iff.mp hs).2.1
    · intro hfree
      exact ⟨_, ERC721.mint_ok_iff.mpr ⟨hsender, hfree, rfl⟩⟩
  rw [← hmint, ← onToken_succeeds_iff ⟨msg, .mintTemplate question context uri⟩ w,
    dispatch_eq_phases]
  exact finish_asking_iff _ recv f _ _ _

/-- **What goes through.** Wherever outside code runs, between calls or inside a
callback: a call goes through exactly if the calls made so far and the calls that are
pending permit it, and the receiver of the token takes it. What the receiver does
before it answers makes no difference. -/
theorem goes_through_iff (h : ObservedFrom (fun _ _ => True) World.init st w)
    (hsender : c.msg.sender ≠ zeroAddress) (recv : Receiver) (f : World → World) :
    (∃ w', dispatch c recv f w = .ok w') ↔ Permitted st w.calls c ∧ Takes recv c := by
  obtain ⟨hgood, hinv⟩ := Observed.mintInv good_init mintInv_init h
  have hconsent := Observed.consentInv h
  rcases c with ⟨msg, op⟩
  cases op with
  | mintTemplate question context uri =>
      rw [dispatch_mint_succeeds_iff hsender, mint_permitted_iff hgood hinv]
      rfl
  | newPrompMinted promptId => exact iff_of_true ⟨_, rfl⟩ ⟨trivial, trivial⟩
  | setTokenURI id uri =>
      have howner := uri_permitted_iff hgood hinv hsender id
      constructor
      · rintro ⟨w', hw⟩
        exact ⟨howner.mp (setTokenURI_ok_iff.mp hw).1, trivial⟩
      · rintro ⟨hmay, _⟩
        exact ⟨_, setTokenURI_ok_iff.mpr ⟨howner.mpr hmay, rfl⟩⟩
  | approve b id =>
      have happrove := hconsent.approve_iff msg b id
      rw [← onToken_succeeds_iff ⟨msg, .approve b id⟩ w] at happrove
      exact happrove.trans (and_iff_left trivial).symm
  | setApprovalForAll operator approved =>
      constructor
      · rintro ⟨w', hw⟩
        obtain ⟨s, hs, _⟩ := onToken_ok_iff.mp hw
        exact ⟨(ERC721.setApprovalForAll_ok_iff.mp hs).1.symm, trivial⟩
      · rintro ⟨hother, _⟩
        exact ⟨_, onToken_ok_iff.mpr
          ⟨_, ERC721.setApprovalForAll_ok_iff.mpr ⟨Ne.symm hother, rfl⟩, rfl⟩⟩
  | transferFrom a b id =>
      rw [dispatch_moves_succeeds_iff (Or.inl rfl) recv f,
        hconsent.transferFrom_iff hsender a b id]
      exact and_congr_right fun _ => iff_of_true (Or.inl rfl) trivial
  | safeTransferFrom a b id data =>
      rw [dispatch_moves_succeeds_iff (Or.inr ⟨data, rfl⟩) recv f,
        hconsent.transferFrom_iff hsender a b id]
      exact and_congr_right fun _ => or_iff_right fun hop => nomatch hop

end Permission

/-- When the mint calls Alice's contract, it can give the token away already, but it
cannot set its URI yet. -/
theorem goes_through_in_callback :
    (∃ w', dispatch ⟨⟨alice, 1⟩, .transferFrom alice bob 1⟩ ⟨0, .undecodable⟩ id
      firstCallback = .ok w') ∧
    ¬ ∃ w', dispatch ⟨⟨alice, 1⟩, .setTokenURI 1 "v"⟩ ⟨0, .undecodable⟩ id
      firstCallback = .ok w' := by
  have halice : alice ≠ zeroAddress := by decide
  have hbob : bob ≠ zeroAddress := by decide
  have hobserved : ObservedFrom (fun _ _ => True) World.init
      [(firstMint, ⟨1, .returned onERC721ReceivedSelector⟩)] firstCallback :=
    TwoPhase.Observed.enter firstMint _ TwoPhase.Observed.init trivial rfl
  constructor
  · have hconsented : Consented [firstMint] alice alice bob 1 :=
      ⟨by decide, halice, hbob, Or.inl (Or.inl rfl)⟩
    exact (goes_through_iff hobserved halice _ _).mpr ⟨hconsented, trivial⟩
  · intro hset
    obtain ⟨hmay, _⟩ := (goes_through_iff hobserved halice _ _).mp hset
    exact hmay.2 ⟨⟨_, List.mem_singleton_self _, rfl⟩, rfl⟩

end Yes3.LyonTemplate
