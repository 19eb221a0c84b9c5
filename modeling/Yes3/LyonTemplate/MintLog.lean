import Mathlib.Data.List.Nodup
import Mathlib.Data.List.Range
import Yes3.LyonTemplate.Pending

/-!
# Yes3.LyonTemplate.MintLog — the records are a log of the mints

The abstract view of the templates is a log (`mintLog`), read off the history: a
mint appends a record, the owner of a record may change its URI, and nothing
else happens to it. The contract keeps this log in four places: the counter, the
records, the lists of the minters, and the set of the tokens that exist.

* `MintInv` says how. `Step.mintInv` is the refinement: every call keeps it.
* `mint_log` draws the consequences for the worlds between two calls.
-/

namespace Yes3.LyonTemplate

open CallTree
open LyonPrompt (Receiver Received alice bob)

/-! ## The log -/

/-- The members of a record that only its mint writes. -/
def TemplateMetaData.content (info : TemplateMetaData) : ℕ × Address × String × String × ℕ :=
  (info.templateId, info.ownerAddress, info.question, info.context, info.createTime)

/-- The record after `sender` asks for a new URI for `id`. -/
def TemplateMetaData.edited (sender : Address) (id : ℕ) (uri : String) (info : TemplateMetaData) :
    TemplateMetaData :=
  if info.templateId = id ∧ info.ownerAddress = sender then { info with templateURI := uri }
  else info

/-- What a call does to the log. -/
def logCall (log : List TemplateMetaData) (c : Call) : List TemplateMetaData :=
  match c.op with
  | .mintTemplate question context templateURI =>
    log ++ [{ templateId := (log.length + 1) % 2 ^ 256
              ownerAddress := c.msg.sender
              question := question
              context := context
              createTime := c.msg.timestamp
              templateURI := templateURI }]
  | .setTokenURI id templateURI => log.map (TemplateMetaData.edited c.msg.sender id templateURI)
  | _ => log

/-- The log that the history calls for. -/
def mintLog (calls : List Call) : List TemplateMetaData :=
  calls.foldl logCall []

/-- The number of the mints that took effect. -/
def mintCount (w : World) : ℕ := w.calls.countP Call.mints

theorem mintLog_snoc (calls : List Call) (c : Call) :
    mintLog (calls ++ [c]) = logCall (mintLog calls) c := by
  simp [mintLog]

section Edited

variable (sender : Address) (id : ℕ) (uri : String) (info : TemplateMetaData)

@[simp] theorem templateId_edited : (info.edited sender id uri).templateId = info.templateId := by
  unfold TemplateMetaData.edited
  split <;> rfl

@[simp] theorem ownerAddress_edited :
    (info.edited sender id uri).ownerAddress = info.ownerAddress := by
  unfold TemplateMetaData.edited
  split <;> rfl

@[simp] theorem content_edited : (info.edited sender id uri).content = info.content := by
  unfold TemplateMetaData.edited
  split <;> rfl

end Edited

theorem length_mintLog (calls : List Call) : (mintLog calls).length = calls.countP Call.mints := by
  induction calls using List.reverseRecOn with
  | nil => rfl
  | append_singleton calls c ih =>
      rw [mintLog_snoc, List.countP_append, ← ih]
      rcases c with ⟨msg, op⟩
      cases op <;> simp [logCall, Call.mints]

/-- The owners of the records are the senders of the mints. -/
theorem map_ownerAddress_mintLog (calls : List Call) :
    (mintLog calls).map TemplateMetaData.ownerAddress =
      (calls.filter Call.mints).map fun c => c.msg.sender := by
  induction calls using List.reverseRecOn with
  | nil => rfl
  | append_singleton calls c ih =>
      rw [mintLog_snoc, List.filter_append, List.map_append, ← ih]
      rcases c with ⟨msg, op⟩
      cases op with
      | mintTemplate question context uri =>
          rw [logCall, List.map_append]
          rfl
      | setTokenURI id uri => simp [logCall, Call.mints, Function.comp_def]
      | _ => simp [logCall, Call.mints]

/-! ## The invariant -/

/-- The contract keeps the log. -/
structure MintInv (w : World) : Prop where
  /-- The counter is the number of the next record. -/
  counter : w.templateId = ((mintLog w.calls).length + 1) % 2 ^ 256
  /-- The records are numbered from 1 on. -/
  ids : (mintLog w.calls).map TemplateMetaData.templateId =
    (List.range (mintLog w.calls).length).map fun k => (k + 1) % 2 ^ 256
  owned : ∀ info ∈ mintLog w.calls, info.ownerAddress ≠ zeroAddress
  recorded : ∀ info ∈ mintLog w.calls, w.ownershipRecord info.templateId = info
  /-- The tokens that exist are those with a record in the log. -/
  minted : ∀ id, w.owners id ≠ zeroAddress ↔ ∃ info ∈ mintLog w.calls, info.templateId = id
  unlogged : ∀ id, (∀ info ∈ mintLog w.calls, info.templateId ≠ id) →
    (w.ownershipRecord id).ownerAddress = zeroAddress
  /-- The list of a minter has the numbers of the minter's records, in order. -/
  listed : ∀ a, w.templateByAddress a =
    ((mintLog w.calls).filter fun info => info.ownerAddress = a).map TemplateMetaData.templateId

theorem mintInv_init : MintInv World.init where
  counter := rfl
  ids := rfl
  owned := fun _ h => absurd h List.not_mem_nil
  recorded := fun _ h => absurd h List.not_mem_nil
  minted := fun _ => by simp [World.init, mintLog]
  unlogged := fun _ _ => rfl
  listed := fun _ => rfl

variable {w w' : World} {c : Call}

/-- A call that leaves the log, the counter, the records and the lists alone and
destroys no token keeps the invariant. -/
theorem MintInv.of_quiet (h : MintInv w) (hlog : mintLog w'.calls = mintLog w.calls)
    (hcounter : w'.templateId = w.templateId) (hrecord : w'.ownershipRecord = w.ownershipRecord)
    (hlists : w'.templateByAddress = w.templateByAddress)
    (howners : ∀ id, w'.owners id = zeroAddress ↔ w.owners id = zeroAddress) : MintInv w' where
  counter := by rw [hlog, hcounter]; exact h.counter
  ids := by rw [hlog]; exact h.ids
  owned := by rw [hlog]; exact h.owned
  recorded := by rw [hlog, hrecord]; exact h.recorded
  minted := by
    intro id
    rw [hlog, Ne, howners id]
    exact h.minted id
  unlogged := by rw [hlog, hrecord]; exact h.unlogged
  listed := by rw [hlog, hlists]; exact h.listed

/-- The next number is not in the log when the next token is free. -/
theorem MintInv.fresh (h : MintInv w) (hfree : w.owners w.templateId = zeroAddress)
    {info : TemplateMetaData} (hinfo : info ∈ mintLog w.calls) :
    info.templateId ≠ w.templateId := by
  intro heq
  exact (h.minted w.templateId).mpr ⟨info, hinfo, heq⟩ hfree

/-- A mint appends its record to the log, and the contract does the same. -/
theorem MintInv.mintTemplate (h : MintInv w) {msg : Msg} {question context uri : String}
    (rs : List Received) (hzero : msg.sender ≠ zeroAddress)
    (hfree : w.owners w.templateId = zeroAddress) :
    MintInv ((w.halfMinted ⟨msg, .mintTemplate question context uri⟩ rs).logged
      msg question context uri) := by
  have hlog : mintLog (w.calls ++ [⟨msg, .mintTemplate question context uri⟩]) =
      mintLog w.calls ++ [{ templateId := w.templateId
                            ownerAddress := msg.sender
                            question := question
                            context := context
                            createTime := msg.timestamp
                            templateURI := uri }] := by
    rw [mintLog_snoc, h.counter]
    rfl
  have hnew : ∀ info ∈ mintLog w.calls, info.templateId ≠ w.templateId := by
    intro info hinfo
    exact h.fresh hfree hinfo
  constructor <;> simp only [World.logged, World.halfMinted, hlog]
  case counter =>
    rw [h.counter, List.length_append, List.length_singleton]
    exact Nat.mod_add_mod _ _ _
  case ids =>
    rw [List.map_append, h.ids, List.length_append, List.length_singleton, List.range_succ,
      List.map_append]
    simp [h.counter]
  case owned =>
    intro info hinfo
    rcases List.mem_append.mp hinfo with hold | hlast
    · exact h.owned info hold
    · rw [List.mem_singleton.mp hlast]
      exact hzero
  case recorded =>
    intro info hinfo
    rcases List.mem_append.mp hinfo with hold | hlast
    · rw [Function.update_of_ne (hnew info hold)]
      exact h.recorded info hold
    · rw [List.mem_singleton.mp hlast, Function.update_self]
  case minted =>
    intro id
    by_cases hid : id = w.templateId
    · simp [hid, hzero]
    · simp [hid, Ne.symm hid, h.minted id]
  case unlogged =>
    intro id hid
    have hne : id ≠ w.templateId := by
      intro heq
      exact hid _ (List.mem_append_right _ (List.mem_singleton_self _)) heq.symm
    rw [Function.update_of_ne hne]
    exact h.unlogged id fun info hinfo => hid info (List.mem_append_left _ hinfo)
  case listed =>
    intro a
    by_cases ha : a = msg.sender
    · simp [ha, h.listed]
    · simp [ha, Ne.symm ha, h.listed]

/-- The owner of a record changes its URI, in the log and in the contract. -/
theorem MintInv.setTokenURI (h : MintInv w) {msg : Msg} {id : ℕ} {uri : String}
    (howner : (w.ownershipRecord id).ownerAddress = msg.sender) :
    MintInv { w with
      ownershipRecord := Function.update w.ownershipRecord id
        { w.ownershipRecord id with templateURI := uri }
      calls := w.calls ++ [⟨msg, .setTokenURI id uri⟩] } := by
  have hlog : mintLog (w.calls ++ [⟨msg, .setTokenURI id uri⟩]) =
      (mintLog w.calls).map (TemplateMetaData.edited msg.sender id uri) :=
    mintLog_snoc _ _
  constructor <;> simp only [hlog, List.forall_mem_map]
  case counter => simpa using h.counter
  case ids => simpa [Function.comp_def] using h.ids
  case owned =>
    intro info hinfo
    simpa using h.owned info hinfo
  case recorded =>
    intro info hinfo
    rw [templateId_edited]
    have hinfo' := h.recorded info hinfo
    by_cases hid : info.templateId = id
    · subst hid
      rw [hinfo'] at howner
      -- the owner on record is the sender, so the log is edited as well
      simp [TemplateMetaData.edited, hinfo', howner]
    · rw [Function.update_of_ne hid, hinfo', TemplateMetaData.edited, if_neg fun hc => hid hc.1]
  case minted => simpa using h.minted
  case unlogged =>
    intro id' hid'
    have hold := h.unlogged id' fun info hinfo => by simpa using hid' info hinfo
    by_cases hid : id' = id
    · subst hid
      simpa using hold
    · rwa [Function.update_of_ne hid]
  case listed =>
    intro a
    simp [h.listed, List.filter_map, Function.comp_def]

/-- Somebody who does not own the record asks for a new URI: nothing changes. -/
theorem MintInv.edited_of_other (h : MintInv w) {msg : Msg} {id : ℕ} {uri : String}
    (hother : (w.ownershipRecord id).ownerAddress ≠ msg.sender) :
    (mintLog w.calls).map (TemplateMetaData.edited msg.sender id uri) = mintLog w.calls := by
  have hsame : ∀ info ∈ mintLog w.calls, info.edited msg.sender id uri = info := by
    intro info hinfo
    apply if_neg
    rintro ⟨hid, howner⟩
    subst hid
    rw [h.recorded info hinfo] at hother
    exact hother howner
  rw [List.map_congr_left hsame, List.map_id']

/-- **Refinement**: every call does to the contract what it does to the log. -/
theorem Step.mintInv (hstep : Step w c w') (h : MintInv w) : MintInv w' := by
  cases hstep with
  | mintTemplate rs hzero hfree => exact h.mintTemplate rs hzero hfree
  | setTokenURI howner => exact h.setTokenURI howner
  | overwritten hother =>
      refine h.of_quiet ?_ rfl rfl rfl fun _ => Iff.rfl
      rw [mintLog_snoc]
      exact h.edited_of_other hother
  | newPrompMinted =>
      exact h.of_quiet (mintLog_snoc _ _) rfl rfl rfl fun _ => Iff.rfl
  | approve hexists hother hauth =>
      exact h.of_quiet (mintLog_snoc _ _) rfl rfl rfl fun _ => Iff.rfl
  | setApprovalForAll hother =>
      exact h.of_quiet (mintLog_snoc _ _) rfl rfl rfl fun _ => Iff.rfl
  | @transfer msg op a b tokenId rs hop hauth howner hexists hzero =>
      have hstep := Step.transfer (w := w) rs hop hauth howner hexists hzero
      rcases hop with rfl | ⟨data, rfl⟩
      · exact h.of_quiet (mintLog_snoc _ _) rfl rfl rfl fun id => hstep.owners_zero_iff rfl id
      · exact h.of_quiet (mintLog_snoc _ _) rfl rfl rfl fun id => hstep.owners_zero_iff rfl id

/-- The invariant holds in every observed world, once the pending mint is
finished. -/
theorem Observed.mintInv {w₀ : World} {st : List (Call × Receiver)} (hgood : Good [] w₀)
    (hinv : MintInv w₀) (h : ObservedFrom (fun _ _ => True) w₀ st w) :
    Good st w ∧ MintInv (unwind tail st w) :=
  Observed.invariant (fun _ _ _ _ _ _ _ _ => trivial) (fun _ _ _ hi _ hs => hs.mintInv hi)
    hgood hinv h

theorem Reachable.mintInv (h : Reachable w) : MintInv w :=
  (Observed.mintInv good_init mintInv_init h).2

/-! ## Consequences -/

/-- A record that exists is the one in the log. -/
theorem MintInv.mem_log (h : MintInv w) {id : ℕ} (hid : w.owners id ≠ zeroAddress) :
    w.ownershipRecord id ∈ mintLog w.calls ∧ (w.ownershipRecord id).templateId = id := by
  rcases (h.minted id).mp hid with ⟨info, hinfo, rfl⟩
  rw [h.recorded info hinfo]
  exact ⟨hinfo, rfl⟩

/-- Exactly the tokens that exist have an owner on record. -/
theorem MintInv.minted_iff_recorded (h : MintInv w) (id : ℕ) :
    w.owners id ≠ zeroAddress ↔ (w.ownershipRecord id).ownerAddress ≠ zeroAddress := by
  constructor
  · intro hid
    exact h.owned _ (h.mem_log hid).1
  · intro hid
    rw [h.minted]
    by_contra hnone
    push Not at hnone
    exact hid (h.unlogged id hnone)

/-- An id is in the list of a minter exactly when its token exists and the
minter is on record for it. -/
theorem MintInv.mem_templateByAddress (h : MintInv w) (a : Address) (id : ℕ) :
    id ∈ w.templateByAddress a ↔
      w.owners id ≠ zeroAddress ∧ (w.ownershipRecord id).ownerAddress = a := by
  rw [h.listed, List.mem_map]
  constructor
  · rintro ⟨info, hinfo, rfl⟩
    rcases List.mem_filter.mp hinfo with ⟨hlog, howner⟩
    rw [h.recorded info hlog]
    exact ⟨(h.minted _).mpr ⟨info, hlog, rfl⟩, by simpa using howner⟩
  · rintro ⟨hid, howner⟩
    rcases h.mem_log hid with ⟨hlog, htemplate⟩
    exact ⟨_, List.mem_filter.mpr ⟨hlog, by simpa using howner⟩, htemplate⟩

/-- While the counter has not wrapped around, the `k`-th record has number `k`. -/
theorem MintInv.ids_of_lt (h : MintInv w) (hmax : mintCount w < 2 ^ 256) :
    (mintLog w.calls).map TemplateMetaData.templateId =
      (List.range (mintCount w)).map (· + 1) := by
  rw [mintCount, ← length_mintLog] at hmax ⊢
  rw [h.ids]
  apply List.map_congr_left
  intro k hk
  rw [List.mem_range] at hk
  exact Nat.mod_eq_of_lt (by omega)

/-- The numbers given out are then `1, ..., mintCount`. -/
theorem MintInv.minted_iff_le (h : MintInv w) (hmax : mintCount w < 2 ^ 256) (id : ℕ) :
    w.owners id ≠ zeroAddress ↔ 1 ≤ id ∧ id ≤ mintCount w := by
  have hids : id ∈ (mintLog w.calls).map TemplateMetaData.templateId ↔
      1 ≤ id ∧ id ≤ mintCount w := by
    rw [h.ids_of_lt hmax]
    simp only [List.mem_map, List.mem_range]
    constructor
    · rintro ⟨k, hk, rfl⟩
      omega
    · rintro ⟨hpos, hle⟩
      exact ⟨id - 1, by omega, by omega⟩
  rw [h.minted, ← hids, List.mem_map]

/-- The record of the token `id` is then the one of the `id`-th mint. -/
theorem MintInv.getElem_log (h : MintInv w) (hmax : mintCount w < 2 ^ 256) {id : ℕ}
    (hpos : 1 ≤ id) (hle : id ≤ mintCount w) :
    (mintLog w.calls)[id - 1]? = some (w.ownershipRecord id) := by
  have hlt : id - 1 < (mintLog w.calls).length := by
    rw [length_mintLog]
    change id - 1 < mintCount w
    omega
  have hnumber : (mintLog w.calls)[id - 1].templateId = id := by
    have hids := congrArg (fun ids : List ℕ => ids[id - 1]?) (h.ids_of_lt hmax)
    have hrange : id - 1 < mintCount w := by omega
    simp [hlt, hrange] at hids
    omega
  have hrecord := h.recorded _ (List.getElem_mem hlt)
  rw [hnumber] at hrecord
  rw [List.getElem?_eq_getElem hlt, hrecord]

/-- The lists of the minters are then increasing. -/
theorem MintInv.listed_increasing (h : MintInv w) (hmax : mintCount w < 2 ^ 256) (a : Address) :
    (w.templateByAddress a).Pairwise (· < ·) := by
  have hall : ((mintLog w.calls).map TemplateMetaData.templateId).Pairwise (· < ·) := by
    rw [h.ids_of_lt hmax, List.pairwise_map]
    exact List.pairwise_lt_range.imp fun hlt => by omega
  rw [h.listed]
  exact hall.sublist (List.filter_sublist.map _)

/-- The contents of the records of the log, in order. -/
def logContents (calls : List Call) : List (ℕ × Address × String × String × ℕ) :=
  (mintLog calls).map TemplateMetaData.content

/-- The log is only ever appended to. -/
theorem Step.logContents_prefix (hstep : Step w c w') :
    logContents w.calls <+: logContents w'.calls := by
  have hcalls : w'.calls = w.calls ++ [c] := by
    cases hstep <;> rfl
  rw [hcalls, logContents, logContents, mintLog_snoc]
  rcases c with ⟨msg, op⟩
  cases op with
  | mintTemplate question context uri =>
      rw [logCall, List.map_append]
      exact List.prefix_append _ _
  | setTokenURI id uri => simp [logCall, Function.comp_def]
  | _ => exact List.prefix_rfl

/-- No later call writes over what a mint has put on record. -/
theorem ReachableFrom.content_eq (hgood : Good [] w) (hinv : MintInv w)
    (h : ReachableFrom (fun _ _ => True) w w') {id : ℕ} (hid : w.owners id ≠ zeroAddress) :
    (w'.ownershipRecord id).content = (w.ownershipRecord id).content := by
  -- the log only grows, the URIs in it apart
  have hlater : MintInv w' ∧ logContents w.calls <+: logContents w'.calls := by
    refine (Observed.invariant
      (X := fun v => MintInv v ∧ logContents w.calls <+: logContents v.calls)
      (fun _ _ _ _ _ _ _ _ => trivial) ?_ hgood ⟨hinv, List.prefix_rfl⟩ h).2
    rintro v c v' ⟨hv, hprefix⟩ _ hstep
    exact ⟨hstep.mintInv hv, hprefix.trans hstep.logContents_prefix⟩
  rcases hinv.mem_log hid with ⟨hlog, htemplate⟩
  have hcontent : (w.ownershipRecord id).content ∈ logContents w'.calls :=
    hlater.2.subset (List.mem_map_of_mem hlog)
  rcases List.mem_map.mp hcontent with ⟨info, hinfo, heq⟩
  have hinfo' := hlater.1.recorded info hinfo
  have hnumber : info.templateId = id := (congrArg Prod.fst heq).trans htemplate
  rw [hnumber] at hinfo'
  rw [hinfo', heq]

/-- **The mint log.** In a world between two calls, with fewer than `2^256 - 1`
mints: the tokens that exist are `1, ..., templateId - 1`, and exactly these have
an owner on record; the record of a token has its number and its original
minter, whose list has it once, and no other list has it; the lists are
increasing; and no later call writes over a record, its URI apart. -/
theorem mint_log (h : Reachable w) (hmax : mintCount w < 2 ^ 256 - 1) :
    (∀ id, ERC721.tokenExists id w.toState = true ↔ 1 ≤ id ∧ id < w.templateId) ∧
    (∀ id, ERC721.tokenExists id w.toState = true ↔
      (w.ownershipRecord id).ownerAddress ≠ zeroAddress) ∧
    (∀ id, 1 ≤ id → id < w.templateId →
      (w.ownershipRecord id).templateId = id ∧
      ((w.calls.filter Call.mints).map fun c => c.msg.sender)[id - 1]? =
        some (w.ownershipRecord id).ownerAddress ∧
      ∀ a, (queryAllTemplatesByAddress a w).count id =
        if a = (w.ownershipRecord id).ownerAddress then 1 else 0) ∧
    (∀ a, (queryAllTemplatesByAddress a w).Pairwise (· < ·)) ∧
    ∀ w', ReachableFrom (fun _ _ => True) w w' → ∀ id, 1 ≤ id → id < w.templateId →
      (w'.ownershipRecord id).content = (w.ownershipRecord id).content := by
  have hinv := Reachable.mintInv h
  have hmax' : mintCount w < 2 ^ 256 := by omega
  have hcounter : w.templateId = mintCount w + 1 := by
    rw [hinv.counter, length_mintLog]
    exact Nat.mod_eq_of_lt (Nat.add_lt_of_lt_sub hmax)
  have hminted : ∀ id, w.owners id ≠ zeroAddress ↔ 1 ≤ id ∧ id < w.templateId := by
    intro id
    rw [hinv.minted_iff_le hmax', hcounter, Nat.lt_succ_iff]
  refine ⟨?_, ?_, ?_, hinv.listed_increasing hmax', ?_⟩
  · intro id
    rw [ERC721.tokenExists_eq_true_iff]
    exact hminted id
  · intro id
    rw [ERC721.tokenExists_eq_true_iff]
    exact hinv.minted_iff_recorded id
  · intro id hpos hlt
    have hid := (hminted id).mpr ⟨hpos, hlt⟩
    rcases hinv.mem_log hid with ⟨hlog, htemplate⟩
    refine ⟨htemplate, ?_, ?_⟩
    · rw [← map_ownerAddress_mintLog, List.getElem?_map,
        hinv.getElem_log hmax' hpos (by omega)]
      rfl
    · intro a
      have hnodup : (w.templateByAddress a).Nodup := (hinv.listed_increasing hmax' a).imp ne_of_lt
      unfold queryAllTemplatesByAddress
      by_cases ha : a = (w.ownershipRecord id).ownerAddress
      · rw [if_pos ha]
        exact List.count_eq_one_of_mem hnodup ((hinv.mem_templateByAddress a id).mpr ⟨hid, ha.symm⟩)
      · rw [if_neg ha]
        apply List.count_eq_zero.mpr
        intro hmem
        exact ha ((hinv.mem_templateByAddress a id).mp hmem).2.symm
  · intro w' hlater id hpos hlt
    exact ReachableFrom.content_eq (ReachableFrom.good good_init h) hinv hlater
      ((hminted id).mpr ⟨hpos, hlt⟩)

theorem mint_log_reentrant :
    (queryAllTemplatesByAddress alice (worldAfter reentrantTxs)).Pairwise (· < ·) ∧
    (ERC721.tokenExists 3 (worldAfter reentrantTxs).toState = true ↔
      1 ≤ 3 ∧ 3 < (worldAfter reentrantTxs).templateId) :=
  have h := mint_log (reachable_worldAfter reentrantTxs) (by decide +kernel)
  ⟨h.2.2.2.1 alice, h.1 3⟩

example : queryAllTemplatesByAddress alice (worldAfter reentrantTxs) = [1] ∧
    ownerOf 1 (worldAfter reentrantTxs) = .ok bob ∧
    queryAllTemplatesByAddress bob (worldAfter reentrantTxs) = [2] := by decide +kernel

end Yes3.LyonTemplate
