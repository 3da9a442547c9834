import ReliableUdp.Proofs.Traffic.Runs

/-!
# Who started a connection, and when

No operation changes a connection's `birth`: the frame of each keeps it (`Connection.Frame`).
So handshake deadlines count from the creation (`Run.birth`).
-/

namespace ReliableUdp

namespace Connection

/-- Whether the connection was started here, and when its handshake began. -/
def birth (c : Connection) : Bool × Nat := (c.initiator, c.handshake.started)

theorem Frame.birth {R : SendWindow → SendWindow → Prop} {c c' : Connection} (h : Frame R c c') :
    c'.birth = c.birth :=
  Prod.ext h.1 h.2.1

end Connection

/-! ## Runs -/

theorem HandleRequest.run_birth (q : HandleRequest) (c : Connection) :
    Step.Yields (q.run c) (·.birth = c.birth) := by
  cases q with
  | send m ch data p =>
    simp only [HandleRequest.run]
    split
    · exact .bind .any fun _ _ => .pure rfl
    · exact .pure rfl
  | approve | approveWith | deny | disconnect => exact .pure rfl

theorem Op.run_birth (o : Op) (c : Connection) : Step.Yields (o.run c) (·.birth = c.birth) := by
  -- every operation but a handle request reaches on from `c` within its frame
  have framed {x : Step Connection} (hx : Step.Yields x (Connection.Frame SendWindow.Reaches c ·)) :
      Step.Yields x (·.birth = c.birth) :=
    hx.mono fun _ h => h.birth
  cases o with
  | heartbeat now => exact framed (Connection.heartbeat_frame (.refl c))
  | receive h p now => exact framed (Connection.onMessage_frame (.refl c))
  | disconnect r now => exact framed (Connection.disconnect_frame (.refl c))
  | finishDisconnect r now => exact framed (Connection.finishDisconnect_frame (.refl c))
  | close r => exact framed (Connection.close_frame (.refl c))
  | forciblyClosed => exact framed (Connection.close_frame (.refl c))
  | request q => exact q.run_birth c
  | take => exact .pure rfl

def Origin.birth : Origin → Bool × Nat
  | .outgoing _ _ _ _ now => (true, now)
  | .incoming _ _ _ _ now => (false, now)

theorem Origin.create_birth (o : Origin) : Step.Yields o.create (·.birth = o.birth) := by
  cases o with
  | outgoing id r n hail now =>
    exact .bind .any fun _ _ => (Connection.setStatus_frame _ _ _).mono fun _ h => h.birth
  | incoming id r n hail now =>
    unfold Origin.create Connection.incoming
    refine .bind .any fun _ _ => ?_
    dsimp only
    split
    · exact .bind .any fun _ _ => .bind .any fun _ _ => (Connection.setStatus_frame _ _ _).mono fun _ h => h.birth
    · exact .bind .any fun _ _ => (Connection.setStatus_frame _ _ _).mono fun _ h => h.birth

theorem Run.birth {o : Origin} {sh : Shared} {ts : List Turn} {s : Snap} (h : Run o sh ts s) :
    s.conn.birth = o.birth :=
  (h.holds (fun h₀ => Origin.create_birth o _ _ _ h₀.1) fun ht _ hi =>
    (Op.run_birth _ _ _ _ _ ht.1).trans hi).2

end ReliableUdp
