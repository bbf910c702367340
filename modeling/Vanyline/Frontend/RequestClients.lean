import Vanyline.Frontend.FsClient
import Vanyline.Protocol.Connection

/-!
# Both clients settle their requests

The two clients of the browser are independent, and each settles its promises by their own
answers under a condition of its own.  Without the conditions each has runs in which a
promise is settled by a push event, is left open although its answer came, or is left when
the connection is closed, and in which a frame makes the callback throw.
-/

namespace Vanyline.Frontend

open Vanyline.Lib

theorem clients_settle {ls : List FsClient.Label} {s : FsClient.State}
    {ks : List Protocol.Connection.Label} {c : Protocol.Connection.State}
    (hfs : Run FsClient.step FsClient.Tame .init ls s)
    (hrpc : Run Protocol.Connection.step Protocol.Connection.Tame .init ks c) :
    FsClient.Settled s ∧ Protocol.Connection.Settled c :=
  ⟨FsClient.settled_of_run hfs, Protocol.Connection.settled_of_run hrpc⟩

/-- Requests that are settled by a push event, or are left open although the answer came or the
connection is closed, and frames that make the callback throw. -/
theorem requests_astray :
    (∃ s, Run FsClient.step free .init FsClient.pushed s ∧ FsClient.strange s = true ∧
      ¬ FsClient.Settled s) ∧
    (∃ s, Run FsClient.step free .init FsClient.overwritten s ∧ FsClient.hasLost s = true ∧
      ¬ FsClient.Settled s) ∧
    (∃ s, Run FsClient.step free .init FsClient.misnamed s ∧ FsClient.hasThrown s = true ∧
      ¬ FsClient.Settled s) ∧
    (∃ s, Run FsClient.step free .init FsClient.wordless s ∧ FsClient.hasThrown s = true ∧
      ¬ FsClient.Settled s) ∧
    (∃ s, Run FsClient.step free .init FsClient.cut s ∧ FsClient.hasLeft s = true ∧
      ¬ FsClient.Settled s) ∧
    (∃ c, Run Protocol.Connection.step free .init Protocol.Connection.scalar c ∧
      Protocol.Connection.hasThrown c = true ∧ ¬ Protocol.Connection.Settled c) ∧
    (∃ c, Run Protocol.Connection.step free .init Protocol.Connection.early c ∧
      Protocol.Connection.hasLost c = true ∧ ¬ Protocol.Connection.Settled c) ∧
    (∃ c, Run Protocol.Connection.step free .init Protocol.Connection.failing c ∧
      Protocol.Connection.hasThrown c = true ∧ ¬ Protocol.Connection.Settled c) ∧
    (∃ c, Run Protocol.Connection.step free .init Protocol.Connection.wordless c ∧
      Protocol.Connection.hasThrown c = true ∧ ¬ Protocol.Connection.Settled c) ∧
    ∃ c, Run Protocol.Connection.step free .init Protocol.Connection.cut c ∧
      Protocol.Connection.hasLeft c = true ∧ ¬ Protocol.Connection.Settled c :=
  ⟨FsClient.exists_notSettled _ (by decide) fun _ => FsClient.not_settled_of_strange,
    FsClient.exists_notSettled _ (by decide) fun _ => FsClient.not_settled_of_lost,
    FsClient.exists_notSettled _ (by decide) fun _ => FsClient.not_settled_of_thrown,
    FsClient.exists_notSettled _ (by decide) fun _ => FsClient.not_settled_of_thrown,
    FsClient.exists_notSettled _ (by decide) fun _ => FsClient.not_settled_of_left,
    Protocol.Connection.exists_notSettled _ (by decide) fun _ =>
      Protocol.Connection.not_settled_of_thrown,
    Protocol.Connection.exists_notSettled _ (by decide) fun _ =>
      Protocol.Connection.not_settled_of_lost,
    Protocol.Connection.exists_notSettled _ (by decide) fun _ =>
      Protocol.Connection.not_settled_of_thrown,
    Protocol.Connection.exists_notSettled _ (by decide) fun _ =>
      Protocol.Connection.not_settled_of_thrown,
    Protocol.Connection.exists_notSettled _ (by decide) fun _ =>
      Protocol.Connection.not_settled_of_left⟩

theorem clients_settle_tame :
    ∃ s c, Run FsClient.step FsClient.Tame .init FsClient.tame s ∧ FsClient.bothSettled s = true ∧
      Run Protocol.Connection.step Protocol.Connection.Tame .init Protocol.Connection.tame c ∧
      Protocol.Connection.allSettled c = true ∧ FsClient.Settled s ∧
      Protocol.Connection.Settled c := by
  obtain ⟨s, hfs, hs⟩ := Run.exists_of_exec FsClient.bothSettled
    (show (exec FsClient.step FsClient.Tame .init FsClient.tame).any _ = true by decide)
  obtain ⟨c, hrpc, hc⟩ := Run.exists_of_exec Protocol.Connection.allSettled
    (show (exec Protocol.Connection.step Protocol.Connection.Tame .init
      Protocol.Connection.tame).any _ = true by decide)
  exact ⟨s, c, hfs, hs, hrpc, hc, clients_settle hfs hrpc⟩

end Vanyline.Frontend
