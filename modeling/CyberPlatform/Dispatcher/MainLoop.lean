/-
**The dispatcher as a whole: from the document to the rounds of the main loop.**

* `initInterfaces_alone` — on its own, `_init_interfaces` returns, and empties the rings of the
  context.
* `pktRouterMainLoop_eq` — what the main loop comes to with a context that can be flushed.
* `receiving_loop` — what a round does with the interfaces that it gets through.
* `started_mainLoop` — and what it comes to once the start-up has succeeded, by the document.
-/

import CyberPlatform.Dispatcher.Flush
import CyberPlatform.Dispatcher.Startup
import CyberPlatform.Foundation.Ensures

namespace CyberPlatform.Dispatcher

open Foundation Json LList Flush

/-! ### Getting ready -/

/-- No operation of `_init_if` puts anything on a ring. -/
theorem put_exec (r : Ring) (op : Op) (s : Shared) (none : put r s.history = []) :
    put r (exec op s).2.history = [] := by
  show put r (s.history ++ happens op s.world) = []
  rw [put_append, none, List.nil_append]
  cases op with
  | count r' => rfl
  | free m => rfl
  | dequeue r' =>
    show put r ((s.world.rings r').head?.toList.map (.taken r')) = []
    cases (s.world.rings r').head? <;> rfl

/-- **`_init_interfaces` on its own** returns 0, gives away what it takes, and leaves the rings of
the context empty. -/
theorem initInterfaces_alone {ctx : DispatcherCtx} (usable : Usable ctx) (w : World) :
    ∃ ready, Dispatcher.initInterfaces ctx w = .ok (0, ready) ∧
      outstanding ready.log = outstanding w.log ∧ ∀ r ∈ contextRings ctx, ready.rings r = [] := by
  have start : Flushing w [] [] ⟨w, []⟩ :=
    ⟨fun r => List.append_nil _, rfl, fun _ none => absurd none List.not_mem_nil⟩
  have flushed : (Flush.initInterfaces ctx).wp exec Others
      (fun err s => err = 0 ∧ Flushed (contextRings ctx) w s) ⟨w, []⟩ := by
    rw [Flush.initInterfaces_eq usable]
    exact Program.wp_bind (Program.wp_mono (fun _ _ flushing =>
      Program.wp_done (kept_flushing _ _ _) flushing fun _ flushing => ⟨rfl, flushing.flushed⟩)
      (wp_flushRings start _))
  obtain ⟨err, s, ran, rfl, flush⟩ := Program.run_of_wp flushed
  have alone : Dispatcher.initInterfaces ctx w = .ok (0, s.world) := by
    rw [← run_initInterfaces]
    have same : ∀ op s, atomically op (Shared.world s) = ((exec op s).1, (exec op s).2.world) :=
      fun _ _ => rfl
    have part := Program.run_part exec Shared.world same (Flush.initInterfaces ctx) ⟨w, []⟩
    rw [ran] at part
    exact part
  refine ⟨s.world, alone, initInterfaces_outstanding alone, fun r member => ?_⟩
  have quiet : put r s.history = [] := Program.run_keeps exec (put_exec r) ran rfl
  obtain ⟨later, _, whole⟩ := flush.rings r member
  exact (List.append_eq_nil_iff.mp (whole.symm.trans quiet)).2

/-! ### The main loop -/

/-- What becomes of the world when only the others move. -/
def idle (rounds : List (World → World)) (w : World) : World :=
  rounds.foldl (fun w others => others w) w

/-- The rounds of a main loop without rx interfaces do nothing. -/
theorem rounds_empty {ctx : DispatcherCtx} (empty : ctx.rxInterfaces.count ≤ 0)
    (rounds : List (World → World)) (w : World) :
    rounds.foldlM (mainLoopRound ctx) w = .ok (idle rounds w) := by
  induction rounds generalizing w with
  | nil => rfl
  | cons others rounds ih =>
    rw [List.foldlM_cons, mainLoopRound, processIncomingPackets_empty empty]
    exact ih (others w)

/-- **The main loop**, whatever the others do between its rounds: it gets ready, and goes round
without end when there is nothing to receive from; otherwise its first round writes through a null
pointer. -/
theorem pktRouterMainLoop_eq {ctx : DispatcherCtx} (usable : Usable ctx)
    (rounds : List (World → World)) (w : World) :
    ∃ ready, Dispatcher.initInterfaces ctx w = .ok (0, ready) ∧
      outstanding ready.log = outstanding w.log ∧ (∀ r ∈ contextRings ctx, ready.rings r = []) ∧
      pktRouterMainLoop ctx rounds w =
        if rounds = [] ∨ ctx.rxInterfaces.count ≤ 0 then .ok (none, idle rounds ready)
        else .error .nullPointer := by
  obtain ⟨ready, alone, balanced, emptied⟩ := initInterfaces_alone usable w
  refine ⟨ready, alone, balanced, emptied, ?_⟩
  have first : pktRouterMainLoop ctx rounds w =
      Dispatcher.initInterfaces ctx w >>= fun out =>
        if out.1 ≠ 0 then .ok (some (-1), out.2)
        else rounds.foldlM (mainLoopRound ctx) out.2 >>= fun w => .ok (none, w) := rfl
  rw [first, alone, ok_bind, if_neg (not_not.mpr rfl)]
  by_cases empty : ctx.rxInterfaces.count ≤ 0
  · rw [if_pos (.inr empty), rounds_empty empty]
    rfl
  cases rounds with
  | nil =>
    rw [if_pos (.inl rfl)]
    rfl
  | cons others rounds =>
    rw [if_neg (not_or.mpr ⟨List.cons_ne_nil _ _, empty⟩), List.foldlM_cons, mainLoopRound,
      processIncomingPackets_null (by omega)]
    rfl

/-! ### Receiving -/

section Receiving

variable {ctx : DispatcherCtx}

/-- What the interfaces are served from. -/
def World.queues (w : World) : (Ring → List (Option MbufPtr)) × (UInt8 → UInt16 → List Burst) :=
  (w.rings, w.bursts)

/-- The world once the interfaces are served, one after the other. -/
def World.serveAll (w : World) (ifs : List IfT) : World := ifs.foldl World.serve w

/-- What waits at an interface, and what is left behind, is a matter of the queues. -/
theorem served_queues {v w : World} (same : v.queues = w.queues) (pIf : IfT) :
    available pIf v = available pIf w ∧ (v.serve pIf).queues = (w.serve pIf).queues := by
  obtain ⟨mbufs, rings, bursts, log⟩ := v
  obtain ⟨rfl, rfl⟩ := Prod.mk.inj same
  unfold available World.serve rteEthRxBurst
  by_cases eth : pIf.isEth ≠ 0
  · rw [if_pos eth, if_pos eth, if_pos eth, if_pos eth]
    cases w.bursts (.ofInt pIf.portId) (.ofInt pIf.qId) <;> exact ⟨rfl, rfl⟩
  · rw [if_neg eth, if_neg eth, if_neg eth, if_neg eth]
    cases pIf.pRing <;> exact ⟨rfl, rfl⟩

/-- The packets that are served are received. -/
theorem World.serve_log (w : World) (pIf : IfT) :
    (w.serve pIf).log = w.log ++ receivedAll ((available pIf w).take maxPacketsBurst) := by
  unfold serve available
  by_cases eth : pIf.isEth ≠ 0
  · have bounded := rteEthRxBurst_length (.ofInt pIf.portId) (.ofInt pIf.qId) w
    rw [if_pos eth, if_pos eth, List.take_of_length_le (by rwa [List.length_map])]
    unfold rteEthRxBurst
    cases w.bursts (.ofInt pIf.portId) (.ofInt pIf.qId) with
    | nil => exact (List.append_nil _).symm
    | cons burst rest =>
      show w.log ++ _ = w.log ++ receivedAll (burst.packets.map some)
      rw [receivedAll, List.filterMap_map]
      simp
  · rw [if_neg eth, if_neg eth]
    cases pIf.pRing with
    | none => exact (List.append_nil _).symm
    | some r => rfl

theorem deliveries_concat (ifs : List IfT) (pIf : IfT) (w : World) :
    deliveries (ifs ++ [pIf]) w =
      deliveries ifs w ++ [(available pIf (w.serveAll ifs)).take maxPacketsBurst] := by
  induction ifs generalizing w with
  | nil => rfl
  | cons x ifs ih => exact congrArg _ (ih (w.serve x))

/-- **One turn of the receiving loop**, for an array that has an mbuf in front: the mbuf is wiped,
and the first packets of the interface, a burst at most, are received and handed over. -/
theorem processInterface_ran {rxPkts rxPkts' : RxPkts} {w w' : World} {i : Nat}
    (ran : processInterface ctx (rxPkts, w) i = .ok (rxPkts', w')) :
    ∃ pkt pIf, fetch rxPkts 0 = .ok (some pkt) ∧ fetch ctx.rxInterfaces.ifs i = .ok pIf ∧
      let cleared := { w with mbufs := Function.update w.mbufs pkt {} }
      let pkts := (available pIf cleared).take maxPacketsBurst
      w' = (cleared.serve pIf).record [.handed pkts] := by
  obtain ⟨first, at0, ran⟩ := bind_eq_ok.mp ran
  obtain ⟨cleared, wipe, ran⟩ := bind_eq_ok.mp ran
  obtain ⟨pIf, cell, ran⟩ := bind_eq_ok.mp ran
  obtain ⟨⟨received, filled, served⟩, take, ran⟩ := bind_eq_ok.mp ran
  obtain ⟨final, look, last⟩ := bind_eq_ok.mp ran
  cases last
  cases first with
  | none => cases wipe
  | some pkt =>
    obtain rfl := Except.ok.inj wipe
    have attached : pIf.isEth ≠ 0 ∨ pIf.pRing ≠ none := by
      by_contra neither
      obtain ⟨ring, null⟩ := not_or.mp neither
      rw [receive, if_neg ring, not_not.mp null] at take
      cases take
    rw [receive_eq pIf rxPkts _ attached] at take
    cases take
    refine ⟨pkt, pIf, at0, cell, ?_⟩
    rw [processPackets_world look, take_writeFront _ _ (List.length_take_le _ _)]

/-- What the first `k` interfaces of the context have come to: the first packets of each, a burst at
most, are received and handed over, and nothing else has happened. -/
structure Received (ctx : DispatcherCtx) (w : World) (k : Nat) (v : World) : Prop where
  log : v.log = w.log ++ (deliveries (ctx.rxInterfaces.entries.take k) w).flatMap
    fun pkts => receivedAll pkts ++ [.handed pkts]
  queues : v.queues = (w.serveAll (ctx.rxInterfaces.entries.take k)).queues

/-- One more interface. -/
theorem Received.next {w v v' : World} {rxPkts rxPkts' : RxPkts} {k : Nat}
    (received : Received ctx w k v) (inside : k < ctx.rxInterfaces.count.toNat)
    (ran : processInterface ctx (rxPkts, v) k = .ok (rxPkts', v')) :
    Received ctx w (k + 1) v' := by
  obtain ⟨pkt, pIf, _, cell, rfl⟩ := processInterface_ran ran
  have entry : ctx.rxInterfaces.entries[k]? = some pIf := by
    have cells : k < maxInterfaces := by
      by_contra outside
      rw [fetch_outside _ (by omega)] at cell
      cases cell
    rw [fetch_inside _ cells] at cell
    obtain rfl := Except.ok.inj cell
    rw [InterfaceT.entries, List.getElem?_take_of_lt inside]
    simp [cells]
  have same : World.queues { v with mbufs := Function.update v.mbufs pkt {} } =
      (w.serveAll (ctx.rxInterfaces.entries.take k)).queues := received.queues
  have one : ctx.rxInterfaces.entries.take (k + 1) = ctx.rxInterfaces.entries.take k ++ [pIf] := by
    rw [List.take_add_one, entry]
    rfl
  obtain ⟨waiting, left⟩ := served_queues same pIf
  constructor
  · rw [one, deliveries_concat, List.flatMap_append, List.flatMap_singleton, ← waiting,
      ← List.append_assoc, ← received.log, ← List.append_assoc]
    exact congrArg (· ++ _) (World.serve_log _ pIf)
  · rw [one, World.serveAll, List.foldl_append]
    exact left

/-- **The receiving loop**, whichever array it begins with: when it gets to its end, it has received
the first packets of every interface, a burst at most, in the order of the table and in their own,
and has handed over just these; and nothing is given away. -/
theorem receiving_loop {rxPkts rxPkts' : RxPkts} {w w' : World}
    (ran : (List.range ctx.rxInterfaces.count.toNat).foldlM (processInterface ctx) (rxPkts, w) =
      .ok (rxPkts', w')) :
    w'.log = w.log ++ (deliveries ctx.rxInterfaces.entries w).flatMap
        (fun pkts => receivedAll pkts ++ [.handed pkts]) ∧
      w'.queues = (w.serveAll ctx.rxInterfaces.entries).queues := by
  have turn : ∀ done i rest, List.range ctx.rxInterfaces.count.toNat = done ++ i :: rest →
      ∀ st : RxPkts × World, Received ctx w done.length st.2 →
        Ensures (fun _ => True) (processInterface ctx st i) fun st' =>
          Received ctx w (done ++ [i]).length st'.2 := by
    intro done i rest split st received
    obtain ⟨rfl, inside⟩ := range_split split
    rw [List.length_append, List.length_singleton]
    cases ran : processInterface ctx st done.length with
    | error trap => trivial
    | ok st' => exact received.next inside ran
  have start : Received ctx w 0 w := ⟨(List.append_nil _).symm, rfl⟩
  have whole : Received ctx w (List.range ctx.rxInterfaces.count.toNat).length w' :=
    (Ensures.foldlM_from (I := fun done st => Received ctx w done.length st.2) turn start).of_ok ran
  have all : ctx.rxInterfaces.entries.take (List.range ctx.rxInterfaces.count.toNat).length =
      ctx.rxInterfaces.entries := by
    rw [List.length_range]
    exact List.take_of_length_le (List.length_take_le _ _)
  have log := whole.log
  have queues := whole.queues
  rw [all] at log queues
  exact ⟨log, queues⟩

/-- Two interfaces share a ring: from an array with an mbuf in front, the first one hands over its
three packets, and the second one finds none left. -/
theorem receiving_loop_shared :
    let ctx : DispatcherCtx :=
      { appName := none, coreId := 0, rxInterfaces := .ofList [{ pRing := some 7 },
        { pRing := some 7 }], txInterfaces := .ofList [], appInterfaces := .ofList [] }
    let frame : Mbuf := { bufAddr := some (List.replicate 12 0 ++ [0x08, 0x06]) }
    let w : World := ⟨fun _ => frame, Function.update (fun _ => []) 7 [some 1, some 2, some 3],
      fun _ _ => [], []⟩
    ∃ rxPkts' w', (List.range 2).foldlM (processInterface ctx)
        (Vector.replicate maxPacketsBurst (some 9), w) = .ok (rxPkts', w') ∧
      handed w'.log = [[some 1, some 2, some 3], []] ∧ outstanding w'.log = 3 ∧
      w'.rings 7 = [] ∧ w'.mbufs 1 = {} := by
  intro ctx frame w
  obtain ⟨rxPkts', w', ran, wiped⟩ : ∃ rxPkts' w', (List.range 2).foldlM (processInterface ctx)
      (Vector.replicate maxPacketsBurst (some 9), w) = .ok (rxPkts', w') ∧ w'.mbufs 1 = {} :=
    ⟨_, _, rfl, rfl⟩
  obtain ⟨log, queues⟩ := receiving_loop ran
  refine ⟨rxPkts', w', ran, ?_, ?_, ?_, wiped⟩
  · rw [log]
    rfl
  · rw [log]
    rfl
  · exact congrFun (Prod.mk.inj queues).1 7

end Receiving

/-! ### From the document -/

section Started

variable (c : JsonC) (rings : Rings) (ealInit : List (Option String) → Int)

/-- The context of a start-up that has succeeded can be flushed, and has an rx interface for each
used one of the document. -/
theorem started_context {document : Document} {conf₀ : AppConf} {ctx₀ ctx : DispatcherCtx}
    (started : startup c rings ealInit document conf₀ ctx₀ = .ok (0, ctx)) :
    Usable ctx ∧ ctx.rxInterfaces.count = usedCount (entries c document.root .rx) := by
  unfold startup at started
  rcases call_eq_ok started (fun _ => rfl) with failed | ⟨conf, parsed, started⟩
  · exact absurd failed (by decide)
  rcases call_eq_ok started (fun _ => rfl) with failed | ⟨ctx', allocated, started⟩
  · exact absurd failed (by decide)
  cases started
  obtain ⟨_, decoded⟩ := parsed_decoded c parsed
  refine ⟨usable_of_created decoded.lists allocated, ?_⟩
  rcases allocatorCreateRessources_cases c rings ealInit decoded ctx₀ with ⟨_, trap⟩ |
    ⟨_, _, refused⟩ | ⟨_, _, ⟨_, _, _, ⟨_, _, _, ran, _, counts⟩ | ⟨_, trap⟩⟩ |
      ⟨_, _, _, refused, _⟩ | ⟨_, _, trap, _⟩⟩
  · cases trap.symm.trans allocated
  · cases refused.symm.trans allocated
  · cases ran.symm.trans allocated
    exact counts .rx
  · cases trap.symm.trans allocated
  · cases refused.symm.trans allocated
  · cases trap.symm.trans allocated

/-- **The dispatcher from its document on.** When the start-up has succeeded, the main loop first
empties the rings of the tables and frees what it takes off them. In a document without used rx
interfaces it then goes round without end, and otherwise the first round writes through a null
pointer, whatever the others do in between. -/
theorem started_mainLoop {document : Document} {conf₀ : AppConf} {ctx₀ ctx : DispatcherCtx}
    (started : startup c rings ealInit document conf₀ ctx₀ = .ok (0, ctx))
    (rounds : List (World → World)) (w : World) :
    ∃ ready, Dispatcher.initInterfaces ctx w = .ok (0, ready) ∧
      outstanding ready.log = outstanding w.log ∧ (∀ r ∈ contextRings ctx, ready.rings r = []) ∧
      pktRouterMainLoop ctx rounds w =
        if rounds = [] ∨ usedCount (entries c document.root .rx) = 0 then
          .ok (none, idle rounds ready)
        else .error .nullPointer := by
  obtain ⟨usable, count⟩ := started_context c rings ealInit started
  obtain ⟨ready, alone, balanced, emptied, ran⟩ := pktRouterMainLoop_eq usable rounds w
  have empty : ctx.rxInterfaces.count ≤ 0 ↔ usedCount (entries c document.root .rx) = 0 := by
    rw [count]
    omega
  refine ⟨ready, alone, balanced, emptied, ?_⟩
  simp only [ran, empty]

end Started

/-- The small document receives from one interface, and has a ring for the application: with an
mbuf on this ring, the dispatcher frees it and then goes wrong in the first round. -/
theorem started_mainLoop_small :
    let rings : Rings := .strict fun name => if name = "ring_1" then some 7 else none
    let w : World := ⟨fun _ => {}, Function.update (fun _ => []) 7 [some 1], fun _ _ => [], []⟩
    ∃ ctx ready, startup namesC rings (fun _ => 0) smallDocument zeroConf zeroCtx = .ok (0, ctx) ∧
      Dispatcher.initInterfaces ctx w = .ok (0, ready) ∧ ready.log = [.received 1, .freed 1] ∧
      pktRouterMainLoop ctx [id] w = .error .nullPointer := by
  intro rings w
  obtain ⟨ctx, started, flushed⟩ : ∃ ctx,
      startup namesC rings (fun _ => 0) smallDocument zeroConf zeroCtx = .ok (0, ctx) ∧
      (Dispatcher.initInterfaces ctx w).map (·.2.log) = .ok [.received 1, .freed 1] := ⟨_, rfl, rfl⟩
  obtain ⟨ready, alone, _, _, ran⟩ := started_mainLoop namesC rings (fun _ => 0) started [id] w
  refine ⟨ctx, ready, started, alone, ?_, ran⟩
  rw [alone] at flushed
  exact Except.ok.inj flushed

end CyberPlatform.Dispatcher
