import Lokinet.Router.OutboundMessageHandler

/-!
Where the callbacks of queued link messages go. `ledger` lists the callbacks the handler has put
on the event loop and those it or the link layer still holds. No call of the handler adds to it
beyond the callback of the message it is given (`Conserves`), so over any run a callback is put
on the event loop at most once. A callback can leave the ledger without being scheduled:
`ProcessOutboundQueue` returns with the entry it popped for a recently removed path, `RemovePath`
erases a path's queue with its messages, and the link layer may refuse a message and never call
its completion handler. Such a callback is never scheduled afterwards.
-/

namespace Lokinet.Router

open Lokinet.Util Lokinet.Path Lokinet.Thread

namespace OutboundMessageHandler

section Ledger

variable {κ : Type}

def callbackOf (e : MessageQueueEntry κ) : Option κ := e.message.2

/-- The callbacks of the messages on a map of queues. -/
def queuedIn {ι : Type} (m : AssocMap ι (List (MessageQueueEntry κ))) : List κ :=
  m.entries.flatMap fun e => e.2.filterMap callbackOf

/-- The callbacks still held: those of the messages on the shared queue, waiting for a session,
on a path's queue, and with the link layer. -/
def held (h : OutboundMessageHandler κ) : List κ :=
  h.outboundQueue.items.filterMap callbackOf ++ queuedIn h.pendingSessionMessageQueues ++
    queuedIn h.outboundMessageQueues ++ h.linkPending.filterMap Prod.snd

/-- Every callback the handler has been given and not lost: scheduled, or still held. -/
def ledger (h : OutboundMessageHandler κ) : List κ := h.scheduled.map Prod.fst ++ held h

/-- The callback a call gives the handler. -/
def Event.callback : Event κ → Option κ
  | .queueMessage _ _ _ _ _ _ _ callback => callback
  | _ => none

def callbacksOf (events : List (Event κ)) : List κ := events.filterMap Event.callback

end Ledger

section Counts

variable {κ : Type} [DecidableEq κ]

/-- From `h` to `h'` the handler only adds to what it scheduled, and its ledger holds no callback
more often than it did, with `extra` given. -/
structure Conserves (h h' : OutboundMessageHandler κ) (extra : List κ) : Prop where
  scheduled_le : h.scheduled <+: h'.scheduled
  count_le : ∀ k, (ledger h').count k ≤ (ledger h).count k + extra.count k

theorem Conserves.refl (h : OutboundMessageHandler κ) : Conserves h h [] :=
  ⟨List.prefix_refl _, fun k => by rw [List.count_nil, Nat.add_zero]⟩

theorem Conserves.trans {h₁ h₂ h₃ : OutboundMessageHandler κ} {e₁ e₂ : List κ} (h₁₂ : Conserves h₁ h₂ e₁)
    (h₂₃ : Conserves h₂ h₃ e₂) : Conserves h₁ h₃ (e₁ ++ e₂) := by
  refine ⟨h₁₂.scheduled_le.trans h₂₃.scheduled_le, fun k => ?_⟩
  have h₁ := h₁₂.count_le k
  have h₂ := h₂₃.count_le k
  rw [List.count_append]
  omega

/-- A step that leaves what was scheduled and the ledger alone conserves what the next one does. -/
theorem Conserves.of_same {h₀ h h' : OutboundMessageHandler κ} {extra : List κ} (hc : Conserves h₀ h' extra)
    (hs : h.scheduled = h₀.scheduled) (hl : ledger h = ledger h₀) : Conserves h h' extra :=
  ⟨hs ▸ hc.scheduled_le, fun k => hl ▸ hc.count_le k⟩

theorem count_ledger (h : OutboundMessageHandler κ) (k : κ) :
    (ledger h).count k = (h.scheduled.map Prod.fst).count k + (h.outboundQueue.items.filterMap callbackOf).count k +
      (queuedIn h.pendingSessionMessageQueues).count k + (queuedIn h.outboundMessageQueues).count k +
      (h.linkPending.filterMap Prod.snd).count k := by
  simp only [ledger, held, List.count_append]
  omega

theorem filterMap_singleton {α β : Type} (f : α → Option β) (a : α) : [a].filterMap f = (f a).toList := by
  cases hf : f a <;> simp [hf]

theorem filterMap_cons_toList {α β : Type} (f : α → Option β) (a : α) (l : List α) :
    (a :: l).filterMap f = (f a).toList ++ l.filterMap f := by
  cases hf : f a <;> simp [hf]

theorem Conserves.trans_nil {h₁ h₂ h₃ : OutboundMessageHandler κ} (h₁₂ : Conserves h₁ h₂ []) (h₂₃ : Conserves h₂ h₃ []) :
    Conserves h₁ h₃ [] :=
  h₁₂.trans h₂₃

/-- What is conserved up to a state is conserved up to any with its schedule and ledger. -/
theorem Conserves.congr {h h' h'' : OutboundMessageHandler κ} {extra : List κ} (hc : Conserves h h' extra)
    (hs : h''.scheduled = h'.scheduled) (hl : ledger h'' = ledger h') : Conserves h h'' extra :=
  ⟨hs ▸ hc.scheduled_le, fun k => hl ▸ hc.count_le k⟩

/-- A state with the same schedule and ledger is reached conserving everything. -/
theorem Conserves.of_eq {h h' : OutboundMessageHandler κ} (hs : h'.scheduled = h.scheduled) (hl : ledger h' = ledger h) :
    Conserves h h' [] :=
  ⟨hs ▸ List.prefix_refl _, fun k => by rw [hl, List.count_nil, Nat.add_zero]⟩

omit [DecidableEq κ] in
theorem pushEntry_perm : ∀ (q : List (MessageQueueEntry κ)) (e : MessageQueueEntry κ), (pushEntry q e).Perm (q ++ [e])
  | [], _ => List.Perm.refl _
  | x :: xs, e => by
    rw [pushEntry]
    split_ifs
    · exact (List.perm_append_singleton e (x :: xs)).symm
    · exact (pushEntry_perm xs e).cons x

theorem count_pushEntry (q : List (MessageQueueEntry κ)) (e : MessageQueueEntry κ) (k : κ) :
    ((pushEntry q e).filterMap callbackOf).count k = (q.filterMap callbackOf).count k + (callbackOf e).toList.count k := by
  rw [((pushEntry_perm q e).filterMap callbackOf).count_eq, List.filterMap_append, List.count_append,
    filterMap_singleton]

variable {ι : Type} [DecidableEq ι] (m : AssocMap ι (List (MessageQueueEntry κ))) (i : ι) (k : κ)

/-- The callbacks on a map of queues are those on the map without queue `i`, and those on `i`. -/
theorem count_queuedIn_find :
    (queuedIn m).count k = (queuedIn (m.erase i)).count k + (((m.find? i).getD []).filterMap callbackOf).count k := by
  cases hf : m.find? i with
  | none =>
    rw [queuedIn, queuedIn, m.erase_of_find?_eq_none hf, Option.getD_none, List.filterMap_nil, List.count_nil,
      Nat.add_zero]
  | some q =>
    rw [queuedIn, queuedIn, ((AssocMap.perm_flatMap_of_find? _ hf)).count_eq, List.count_append, Option.getD_some]

theorem count_queuedIn_insert (q : List (MessageQueueEntry κ)) :
    (queuedIn (m.insert i q)).count k = (queuedIn (m.erase i)).count k + (q.filterMap callbackOf).count k := by
  rw [queuedIn, queuedIn, (AssocMap.perm_flatMap_insert _ m i q).count_eq, List.count_append]

/-- Putting queue `q` in place of queue `i` changes the callbacks by the two queues'. -/
theorem count_queuedIn_replace (q : List (MessageQueueEntry κ)) :
    (queuedIn (m.insert i q)).count k + (((m.find? i).getD []).filterMap callbackOf).count k =
      (queuedIn m).count k + (q.filterMap callbackOf).count k := by
  rw [count_queuedIn_insert, count_queuedIn_find m i]
  omega

theorem count_queuedIn_emplace : (queuedIn (m.emplace i []).1).count k = (queuedIn m).count k := by
  cases hf : m.find? i with
  | none =>
    rw [m.emplace_of_find?_eq_none [] hf, count_queuedIn_insert, queuedIn, queuedIn, m.erase_of_find?_eq_none hf,
      List.filterMap_nil, List.count_nil, Nat.add_zero]
  | some q => rw [m.emplace_of_find?_eq_some [] hf]

theorem count_queuedIn_index : (queuedIn (m.index i []).2).count k = (queuedIn m).count k := by
  cases hf : m.find? i with
  | none =>
    rw [m.index_of_find?_eq_none [] hf, count_queuedIn_insert, queuedIn, queuedIn, m.erase_of_find?_eq_none hf,
      List.filterMap_nil, List.count_nil, Nat.add_zero]
  | some q => rw [m.index_of_find?_eq_some [] hf]

end Counts

section Calls

variable {κ : Type} [DecidableEq κ] (link : Nat → RouterID → LinkOutcome) (h : OutboundMessageHandler κ)

theorem conserves_doCallback (callback : Option κ) (status : SendStatus) :
    Conserves h (h.doCallback callback status) callback.toList := by
  cases callback with
  | none => exact Conserves.refl h
  | some c =>
    refine ⟨List.prefix_append _ _, fun k => ?_⟩
    simp only [doCallback, count_ledger, List.map_append, List.map_cons, List.map_nil, List.count_append,
      Option.toList_some]
    omega

theorem conserves_send (remote : RouterID) (msg : List UInt8 × Option κ) :
    Conserves h (h.send link remote msg) msg.2.toList := by
  unfold send
  cases link h.sent remote with
  | complete status =>
    dsimp only
    have hc := conserves_doCallback { h with sent := h.sent + 1 } msg.2 (deliveryToSendStatus status)
    exact hc.of_same rfl rfl
  | defer =>
    dsimp only
    refine ⟨List.prefix_refl _, fun k => ?_⟩
    simp only [count_ledger, List.filterMap_append, filterMap_singleton, List.count_append]
    omega
  | refuse => exact ⟨List.prefix_refl _, fun k => Nat.le_add_right _ _⟩

theorem conserves_queueOutboundMessage (remote : RouterID) (msg : List UInt8 × Option κ) (pathid : PathID)
    (priority : UInt16) : Conserves h (h.queueOutboundMessage remote msg pathid priority) msg.2.toList := by
  unfold queueOutboundMessage
  simp only [Fifo.step]
  split_ifs
  · exact conserves_doCallback h _ _
  · exact conserves_doCallback h _ _
  · refine ⟨List.prefix_refl _, fun k => ?_⟩
    simp only [count_ledger, List.filterMap_append, filterMap_singleton, List.count_append, callbackOf]
    omega

theorem conserves_queueMessage (remote : RouterID) (isClient : Option Bool) (allowed hasSession : Bool)
    (encoded : Option (List UInt8)) (priority : UInt16) (pathid : PathID) (callback : Option κ) :
    Conserves h (h.queueMessage remote isClient allowed hasSession encoded priority pathid callback).2 callback.toList := by
  unfold queueMessage
  by_cases hbad : (isClient.isNone && !allowed) = true
  · rw [if_pos hbad]
    exact conserves_doCallback h _ _
  · rw [if_neg hbad]
    cases encoded with
    | none => exact ⟨List.prefix_refl _, fun k => Nat.le_add_right _ _⟩
    | some buf =>
      dsimp only
      by_cases hs : hasSession = true
      · rw [if_pos hs]
        exact conserves_queueOutboundMessage h remote (buf, callback) pathid priority
      · rw [if_neg hs]
        refine ⟨List.prefix_refl _, fun k => ?_⟩
        have hemp := count_queuedIn_emplace h.pendingSessionMessageQueues remote k
        have hpush := count_pushEntry (((h.pendingSessionMessageQueues.emplace remote []).1.find? remote).getD [])
          ⟨priority, (buf, callback), zeroID, remote⟩ k
        have hrep := count_queuedIn_replace (h.pendingSessionMessageQueues.emplace remote []).1 remote k
          (pushEntry (((h.pendingSessionMessageQueues.emplace remote []).1.find? remote).getD [])
            ⟨priority, (buf, callback), zeroID, remote⟩)
        simp only [callbackOf] at hpush
        simp only [count_ledger]
        omega

theorem conserves_removePath (pathid : PathID) (now : Nat) : Conserves h (h.removePath pathid now) [] := by
  refine ⟨List.prefix_refl _, fun k => ?_⟩
  have hfind := count_queuedIn_find h.outboundMessageQueues pathid k
  simp only [removePath, count_ledger, List.count_nil]
  omega

theorem conserves_finalizeLoop (status : SendStatus) : ∀ (moved : List (MessageQueueEntry κ)) (h : OutboundMessageHandler κ),
    Conserves h (moved.foldl (fun h entry => if status = .success then h.send link entry.router entry.message
      else h.doCallback entry.message.2 status) h) (moved.filterMap callbackOf)
  | [], h => Conserves.refl h
  | entry :: rest, h => by
    have hstep : Conserves h (if status = .success then h.send link entry.router entry.message
        else h.doCallback entry.message.2 status) (callbackOf entry).toList := by
      split_ifs
      · exact conserves_send link h entry.router entry.message
      · exact conserves_doCallback h entry.message.2 status
    rw [List.foldl_cons, filterMap_cons_toList]
    exact hstep.trans (conserves_finalizeLoop status rest _)

theorem conserves_finalizeSessionRequest (router : RouterID) (status : SendStatus) :
    Conserves h (h.finalizeSessionRequest link router status) [] := by
  unfold finalizeSessionRequest
  cases hf : h.pendingSessionMessageQueues.find? router with
  | none => exact Conserves.refl h
  | some moved =>
    dsimp only
    have hloop := conserves_finalizeLoop link status moved
      { h with pendingSessionMessageQueues := h.pendingSessionMessageQueues.erase router }
    refine ⟨hloop.scheduled_le, fun k => ?_⟩
    have hle := hloop.count_le k
    have hfind := count_queuedIn_find h.pendingSessionMessageQueues router k
    rw [hf, Option.getD_some] at hfind
    simp only [count_ledger] at hle ⊢
    rw [List.count_nil]
    omega

theorem conserves_onSessionResult (router : RouterID) (result : SessionResult) :
    Conserves h (h.onSessionResult link router result) [] :=
  conserves_finalizeSessionRequest link h router (toSendStatus result)

theorem conserves_decay (now : Nat) : Conserves h (h.decay now) [] := Conserves.of_eq rfl rfl

omit [DecidableEq κ] in
theorem outboundQueue_doCallback (callback : Option κ) (status : SendStatus) :
    (h.doCallback callback status).outboundQueue = h.outboundQueue := by
  cases callback <;> rfl

omit [DecidableEq κ] in
theorem outboundQueue_fileEntry (entry : MessageQueueEntry κ) : (h.fileEntry entry).outboundQueue = h.outboundQueue := by
  unfold fileEntry
  dsimp only
  by_cases hroom : (((h.outboundMessageQueues.emplace entry.pathid []).1.find? entry.pathid).getD []).length <
      maxPathQueueSize ∨ entry.pathid = zeroID
  · rw [if_pos hroom]
  · rw [if_neg hroom]
    exact outboundQueue_doCallback _ _ _

theorem conserves_fileEntry (entry : MessageQueueEntry κ) : Conserves h (h.fileEntry entry) (callbackOf entry).toList := by
  have hemp := fun k => count_queuedIn_emplace h.outboundMessageQueues entry.pathid k
  unfold fileEntry
  dsimp only
  by_cases hroom : (((h.outboundMessageQueues.emplace entry.pathid []).1.find? entry.pathid).getD []).length <
      maxPathQueueSize ∨ entry.pathid = zeroID
  · rw [if_pos hroom]
    refine ⟨List.prefix_refl _, fun k => ?_⟩
    have hpush := count_pushEntry (((h.outboundMessageQueues.emplace entry.pathid []).1.find? entry.pathid).getD []) entry k
    have hrep := count_queuedIn_replace (h.outboundMessageQueues.emplace entry.pathid []).1 entry.pathid k
      (pushEntry (((h.outboundMessageQueues.emplace entry.pathid []).1.find? entry.pathid).getD []) entry)
    have he := hemp k
    simp only [count_ledger]
    omega
  · rw [if_neg hroom]
    have hc := conserves_doCallback
      { h with
        outboundMessageQueues := (h.outboundMessageQueues.emplace entry.pathid []).1
        roundRobinOrder := if (h.outboundMessageQueues.emplace entry.pathid []).2 = true ∧ entry.pathid ≠ zeroID then
          h.roundRobinOrder ++ [entry.pathid] else h.roundRobinOrder } entry.message.2 .congestion
    refine ⟨hc.scheduled_le, fun k => ?_⟩
    have hle := hc.count_le k
    have he := hemp k
    simp only [count_ledger] at hle ⊢
    exact Nat.le_trans hle (by rw [he]; rfl)

/-- Each round pops an entry off the shared queue and files it, or returns with it lost. -/
theorem conserves_processLoop : ∀ (es : List (MessageQueueEntry κ)) (h : OutboundMessageHandler κ),
    h.outboundQueue.items = es → Conserves h (processLoop es h) []
  | [], h, _ => Conserves.refl h
  | entry :: rest, h, hes => by
    let popped : OutboundMessageHandler κ := { h with outboundQueue := { h.outboundQueue with items := rest } }
    have hpop : ∀ k, (ledger popped).count k + (callbackOf entry).toList.count k = (ledger h).count k := by
      intro k
      simp only [popped, count_ledger, hes, filterMap_cons_toList, List.count_append]
      omega
    show Conserves h (if popped.recentlyRemovedPaths.contains entry.pathid then popped
      else processLoop rest (popped.fileEntry entry)) []
    split_ifs with hremoved
    · refine ⟨List.prefix_refl _, fun k => ?_⟩
      have hk := hpop k
      rw [List.count_nil]
      omega
    · have hfile := conserves_fileEntry popped entry
      have hrest := conserves_processLoop rest (popped.fileEntry entry) (by rw [outboundQueue_fileEntry])
      refine ⟨hfile.scheduled_le.trans hrest.scheduled_le, fun k => ?_⟩
      have h₁ := hfile.count_le k
      have h₂ := hrest.count_le k
      have hk := hpop k
      rw [List.count_nil] at h₂ ⊢
      omega

theorem conserves_processOutboundQueue : Conserves h h.processOutboundQueue [] :=
  conserves_processLoop h.outboundQueue.items h rfl

omit [DecidableEq κ] in
theorem outboundMessageQueues_doCallback (callback : Option κ) (status : SendStatus) :
    (h.doCallback callback status).outboundMessageQueues = h.outboundMessageQueues := by
  cases callback <;> rfl

omit [DecidableEq κ] in
theorem outboundMessageQueues_send (remote : RouterID) (msg : List UInt8 × Option κ) :
    (h.send link remote msg).outboundMessageQueues = h.outboundMessageQueues := by
  unfold send
  cases link h.sent remote with
  | complete status => exact outboundMessageQueues_doCallback _ _ _
  | defer => rfl
  | refuse => rfl

omit [DecidableEq κ] in
theorem outboundMessageQueues_sendAll : ∀ (h : OutboundMessageHandler κ) (es : List (MessageQueueEntry κ)),
    (sendAll link h es).outboundMessageQueues = h.outboundMessageQueues
  | _, [] => rfl
  | h, entry :: rest => by
    rw [sendAll, outboundMessageQueues_sendAll _ rest, outboundMessageQueues_send]

theorem conserves_sendAll : ∀ (h : OutboundMessageHandler κ) (es : List (MessageQueueEntry κ)),
    Conserves h (sendAll link h es) (es.filterMap callbackOf)
  | h, [] => Conserves.refl h
  | h, entry :: rest => by
    rw [sendAll, filterMap_cons_toList]
    exact (conserves_send link h entry.router entry.message).trans (conserves_sendAll _ rest)

/-- `operator[]` on the path queues adds no callback. -/
theorem conserves_index (pathid : PathID) (order : List PathID) :
    Conserves h { h with outboundMessageQueues := (h.outboundMessageQueues.index pathid []).2, roundRobinOrder := order } [] := by
  refine ⟨List.prefix_refl _, fun k => ?_⟩
  have hidx := count_queuedIn_index h.outboundMessageQueues pathid k
  simp only [count_ledger, List.count_nil]
  omega

/-- A path queue whose top entry went to the link layer, put back without it. -/
theorem conserves_popSent {pathid : PathID} {entry : MessageQueueEntry κ} {rest : List (MessageQueueEntry κ)}
    (hq : (h.outboundMessageQueues.index pathid []).1 = entry :: rest) (order : List PathID) {S : OutboundMessageHandler κ}
    (hS : Conserves { h with outboundMessageQueues := (h.outboundMessageQueues.index pathid []).2, roundRobinOrder := order }
      S (callbackOf entry).toList)
    (hmap : S.outboundMessageQueues = (h.outboundMessageQueues.index pathid []).2) (order' : List PathID) :
    Conserves h { S with outboundMessageQueues := S.outboundMessageQueues.insert pathid rest, roundRobinOrder := order' } [] := by
  refine ⟨hS.scheduled_le, fun k => ?_⟩
  have hfind : (S.outboundMessageQueues.find? pathid).getD [] = entry :: rest := by
    rw [hmap, AssocMap.find?_index, hq, Option.getD_some]
  have hrep := count_queuedIn_replace S.outboundMessageQueues pathid k rest
  rw [hfind, filterMap_cons_toList, List.count_append] at hrep
  have hle := hS.count_le k
  have hidx := count_queuedIn_index h.outboundMessageQueues pathid k
  simp only [count_ledger] at hle ⊢
  rw [List.count_nil]
  omega

theorem conserves_roundRobinLoop (numQueues : Nat) : ∀ (fuel : Nat) (h : OutboundMessageHandler κ) (sentCount emptyCount : Nat),
    Conserves h (roundRobinLoop link numQueues fuel h sentCount emptyCount) []
  | 0, h, _, _ => Conserves.refl h
  | fuel + 1, h, sentCount, emptyCount => by
    rw [roundRobinLoop]
    by_cases hcap : sentCount < maxOutboundMessagesPerTick
    · rw [if_pos hcap]
      cases horder : h.roundRobinOrder with
      | nil => exact Conserves.refl h
      | cons pathid order =>
        dsimp only
        cases hq : (h.outboundMessageQueues.index pathid []).1 with
        | cons entry rest =>
          dsimp only
          have hround := conserves_popSent h hq order (conserves_send link _ entry.router entry.message)
            (outboundMessageQueues_send link _ entry.router entry.message)
          split_ifs
          · exact hround _
          · exact (hround _).trans_nil (conserves_roundRobinLoop numQueues fuel _ _ _)
        | nil =>
          dsimp only
          split_ifs
          · exact conserves_index h pathid _
          · exact (conserves_index h pathid _).trans_nil (conserves_roundRobinLoop numQueues fuel _ _ _)
    · rw [if_neg hcap]
      exact Conserves.refl h

/-- The link layer's completion takes the kept handler out of the pending ones, and any other kept
under the same number with it. -/
theorem count_linkPending_filter {l : List (Nat × Option κ)} {n : Nat} {p : Nat × Option κ}
    (hp : l.find? (fun p => p.1 == n) = some p) (k : κ) :
    ((l.filter fun p => p.1 != n).filterMap Prod.snd).count k + p.2.toList.count k ≤ (l.filterMap Prod.snd).count k := by
  have hpn : p.1 = n := by simpa using List.find?_some hp
  have hmem : p ∈ l.filter fun x => !(x.1 != n) := by
    simpa [hpn] using List.mem_of_find?_eq_some hp
  have hsub := ((List.singleton_sublist.mpr hmem).append_left (l.filter fun p => p.1 != n)).filterMap Prod.snd
  have hperm := (List.filter_append_perm (fun p => p.1 != n) l).filterMap Prod.snd
  calc ((l.filter fun p => p.1 != n).filterMap Prod.snd).count k + p.2.toList.count k
      = (((l.filter fun p => p.1 != n) ++ [p]).filterMap Prod.snd).count k := by
        rw [List.filterMap_append, List.count_append, filterMap_singleton]
    _ ≤ (((l.filter fun p => p.1 != n) ++ l.filter fun x => !(x.1 != n)).filterMap Prod.snd).count k :=
        hsub.count_le k
    _ = (l.filterMap Prod.snd).count k := hperm.count_eq k

theorem conserves_linkCompleted (n : Nat) (status : DeliveryStatus) : Conserves h (h.linkCompleted n status) [] := by
  unfold linkCompleted
  cases hp : h.linkPending.find? (fun p => p.1 == n) with
  | none => exact Conserves.refl h
  | some p =>
    dsimp only
    have hcb := conserves_doCallback { h with linkPending := h.linkPending.filter fun p => p.1 != n } p.2
      (deliveryToSendStatus status)
    refine ⟨hcb.scheduled_le, fun k => ?_⟩
    have hle := hcb.count_le k
    have hdrop := count_linkPending_filter hp k
    simp only [count_ledger] at hle ⊢
    rw [List.count_nil]
    omega

/-- The routing messages went to the link layer, and their queue is emptied. -/
theorem conserves_clearRouting {S : OutboundMessageHandler κ}
    (hS : Conserves { h with outboundMessageQueues := (h.outboundMessageQueues.index zeroID []).2 } S
      ((h.outboundMessageQueues.index zeroID []).1.filterMap callbackOf))
    (hmap : S.outboundMessageQueues = (h.outboundMessageQueues.index zeroID []).2) :
    Conserves h { S with outboundMessageQueues := S.outboundMessageQueues.insert zeroID [] } [] := by
  refine ⟨hS.scheduled_le, fun k => ?_⟩
  have hfind : (S.outboundMessageQueues.find? zeroID).getD [] = (h.outboundMessageQueues.index zeroID []).1 := by
    rw [hmap, AssocMap.find?_index, Option.getD_some]
  have hrep := count_queuedIn_replace S.outboundMessageQueues zeroID k []
  rw [hfind, List.filterMap_nil, List.count_nil] at hrep
  have hle := hS.count_le k
  have hidx := count_queuedIn_index h.outboundMessageQueues zeroID k
  simp only [count_ledger] at hle ⊢
  rw [List.count_nil]
  omega

theorem conserves_startRoundRobin {h' : OutboundMessageHandler κ} (hc : Conserves h h' []) :
    Conserves h (if h'.roundRobinOrder.length = 0 then h' else roundRobinLoop link h'.roundRobinOrder.length
      ((maxOutboundMessagesPerTick + 1) * (h'.roundRobinOrder.length + 1)) h' 0 0) [] := by
  by_cases hlen : h'.roundRobinOrder.length = 0
  · rw [if_pos hlen]
    exact hc
  · rw [if_neg hlen]
    exact hc.trans_nil (conserves_roundRobinLoop link _ _ _ _ _)

theorem conserves_sendRoundRobin : Conserves h (h.sendRoundRobin link) [] := by
  have hrouting := conserves_clearRouting h
    (conserves_sendAll link { h with outboundMessageQueues := (h.outboundMessageQueues.index zeroID []).2 }
      (h.outboundMessageQueues.index zeroID []).1)
    (outboundMessageQueues_sendAll link _ _)
  unfold sendRoundRobin
  -- dropping removed paths from the round robin moves no callback, whether it happens or not
  exact conserves_startRoundRobin link h (hrouting.congr (by split <;> rfl) (by split <;> rfl))

theorem conserves_tick (now : Nat) : Conserves h (h.tick link now) [] :=
  ((conserves_decay h now).trans_nil (conserves_processOutboundQueue _)).trans_nil (conserves_sendRoundRobin link _)

/-- Each call moves a callback to the schedule at most once, and adds none but its own. -/
theorem conserves_step (ev : Event κ) : Conserves h (h.step link ev) (Event.callback ev).toList := by
  cases ev with
  | queueMessage remote isClient allowed hasSession encoded priority pathid callback =>
    exact conserves_queueMessage h remote isClient allowed hasSession encoded priority pathid callback
  | tick now => exact conserves_tick link h now
  | removePath pathid now => exact conserves_removePath h pathid now
  | sessionResult router result => exact conserves_onSessionResult link h router result
  | linkCompleted n status => exact conserves_linkCompleted h n status

theorem conserves_run : ∀ (h : OutboundMessageHandler κ) (events : List (Event κ)),
    Conserves h (h.run link events) (callbacksOf events)
  | h, [] => Conserves.refl h
  | h, ev :: events => by
    rw [run, List.foldl_cons, callbacksOf, filterMap_cons_toList]
    exact (conserves_step link h ev).trans (conserves_run _ events)

end Calls

section Runs

variable {κ : Type} [DecidableEq κ] (link : Nat → RouterID → LinkOutcome)

omit [DecidableEq κ] in
theorem run_append (h : OutboundMessageHandler κ) (events events' : List (Event κ)) :
    h.run link (events ++ events') = (h.run link events).run link events' :=
  List.foldl_append

/-- A callback is scheduled no more often than the ledger held it and the calls gave it. -/
theorem count_scheduled_run_le (h : OutboundMessageHandler κ) (events : List (Event κ)) (k : κ) :
    ((h.run link events).scheduled.map Prod.fst).count k ≤ (ledger h).count k + (callbacksOf events).count k := by
  have hle := (conserves_run link h events).count_le k
  have hsched : ((h.run link events).scheduled.map Prod.fst).count k ≤ (ledger (h.run link events)).count k := by
    rw [count_ledger]
    omega
  omega

theorem scheduled_callbacks_nodup (maxQueueSize : Nat) (events : List (Event κ)) (hev : (callbacksOf events).Nodup) :
    (((init maxQueueSize).run link events).scheduled.map Prod.fst).Nodup := by
  rw [List.nodup_iff_count_le_one] at hev ⊢
  intro k
  have hle := count_scheduled_run_le link (init maxQueueSize) events k
  have hinit : ledger (init maxQueueSize : OutboundMessageHandler κ) = [] := rfl
  rw [hinit, List.count_nil] at hle
  have hk := hev k
  omega

/-- A path other than the routing messages' one. -/
def removedPath : PathID := ⟨1 :: List.replicate 15 0, rfl⟩

/-- A message with callback `7` queued for `removedPath` to a router with a session, then a tick. -/
def messageOnPath : List (Event Nat) :=
  [.queueMessage (AlignedBuffer.zero 32) (some false) true true (some [0]) 0 removedPath (some 7), .tick 0]

theorem scheduled_callbacks_nodup_delivered : (callbacksOf messageOnPath).Nodup ∧
    (((init maxOutboundQueueSize).run (fun _ _ => .complete .deliverySuccess) messageOnPath).scheduled.map
      Prod.fst).Nodup :=
  ⟨by decide, scheduled_callbacks_nodup (fun _ _ => .complete .deliverySuccess) maxOutboundQueueSize messageOnPath
    (by decide)⟩

/-- The same message, with its path removed before the tick. -/
def messageForRemovedPath : List (Event Nat) :=
  [.queueMessage (AlignedBuffer.zero 32) (some false) true true (some [0]) 0 removedPath (some 7),
    .removePath removedPath 0, .tick 0]

/-- A link layer that delivers every message at once. -/
def deliverAll : Nat → RouterID → LinkOutcome := fun _ _ => .complete .deliverySuccess

theorem queued_message_status_lost :
    ((init maxOutboundQueueSize : OutboundMessageHandler Nat).queueMessage (AlignedBuffer.zero 32) (some false) true
      true (some [0]) 0 removedPath (some 7)).1 = true ∧
    (held ((init maxOutboundQueueSize).run deliverAll messageForRemovedPath) = [] ∧
      ∀ events, (((init maxOutboundQueueSize).run deliverAll (messageForRemovedPath ++ events)).scheduled.map
        Prod.fst).count 7 ≤ (callbacksOf events).count 7) ∧
    (held ((init maxOutboundQueueSize).run (fun _ _ => .refuse) messageOnPath) = [] ∧
      ∀ events, (((init maxOutboundQueueSize).run (fun _ _ => .refuse) (messageOnPath ++ events)).scheduled.map
        Prod.fst).count 7 ≤ (callbacksOf events).count 7) := by
  refine ⟨by decide, ⟨by decide, fun events => ?_⟩, by decide, fun events => ?_⟩
  · -- popped at the tick for a recently removed path, the message is gone with its callback
    have hle := count_scheduled_run_le deliverAll ((init maxOutboundQueueSize).run deliverAll messageForRemovedPath)
      events 7
    have hgone : ledger ((init maxOutboundQueueSize : OutboundMessageHandler Nat).run deliverAll
      messageForRemovedPath) = [] := by decide
    rw [hgone, List.count_nil, Nat.zero_add] at hle
    rw [run_append]
    exact hle
  · -- handed to a link layer that refuses it, the message is gone with its callback
    have hle := count_scheduled_run_le (fun _ _ => .refuse)
      ((init maxOutboundQueueSize).run (fun _ _ => .refuse) messageOnPath) events 7
    have hgone : ledger ((init maxOutboundQueueSize : OutboundMessageHandler Nat).run (fun _ _ => .refuse)
      messageOnPath) = [] := by decide
    rw [hgone, List.count_nil, Nat.zero_add] at hle
    rw [run_append]
    exact hle

end Runs

end OutboundMessageHandler

end Lokinet.Router
