import Barrage.Actor
import Barrage.CommandLine.Folder
import Barrage.Host.Recorder
import Barrage.Main
import Barrage.Proofs.Bullet.Refire
import Barrage.Proofs.Bullet.WriteBack
import Barrage.Proofs.Checked.Scripts
import Barrage.Proofs.CommandLine.Invocation
import Barrage.Proofs.Enemy.Silence
import Barrage.Proofs.Enemy.Walk
import Barrage.Proofs.Exact.Homing
import Barrage.Proofs.Exact.Region
import Barrage.Proofs.Exact.Spread
import Barrage.Proofs.Exact.Wave
import Barrage.Proofs.Host.Interpolation
import Barrage.Proofs.Host.Record
import Barrage.Proofs.Script.Builder
import Barrage.Proofs.Script.Findings
import Barrage.Proofs.Script.Guard
import Barrage.Proofs.Script.Mirror
import Barrage.Proofs.Script.OpenLoops
import Barrage.Proofs.Script.Registry
import Barrage.Proofs.Shot.Shuffle
import Barrage.Proofs.Shot.Slots
import Barrage.Proofs.Shot.Tally
import Barrage.Proofs.Shot.Volley
import Barrage.Proofs.Stage.Accounts
import Barrage.Proofs.Stage.Budget
import Barrage.Proofs.Stage.Crash
import Barrage.Proofs.Stage.Fate
import Barrage.Proofs.Stage.Ledger
import Barrage.Proofs.Stage.Names
import Barrage.Proofs.Stage.Scripts
import Barrage.Proofs.Stage.Splits
import Barrage.Proofs.Stage.Sprites
import Barrage.Proofs.Stage.Storage
import Barrage.Script.Probe
