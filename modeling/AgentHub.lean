import AgentHub.Ledger.Limits
import AgentHub.Ledger.Replay
import AgentHub.Approvals.Conformance
import AgentHub.Approvals.Execution
import AgentHub.Run.Producer
import AgentHub.Transcript.Grammar
import AgentHub.Context.Trust
import AgentHub.Context.Suffix
import AgentHub.History.Memory
import AgentHub.History.Pressure
import AgentHub.Summary.Job
import AgentHub.Mcp.Dispatch
import AgentHub.Gateway.Stream
import AgentHub.Streaming.Reconnect
import AgentHub.Evaluation.GateDecision
import AgentHub.Evaluation.Trajectory
import AgentHub.Knowledge.Retry
import AgentHub.Chunking.Overlap
import AgentHub.Memories.SingleCall
import AgentHub.Web.SseFrames
import AgentHub.Evaluation.Holm
import AgentHub.Knowledge.Rerank
import AgentHub.Egress.Host
import AgentHub.Wiki.Literal
import AgentHub.Wiki.Query
import AgentHub.Wiki.Lint
import AgentHub.Evaluation.Pricing
import AgentHub.RuntimeProjection.Categories
import AgentHub.RuntimeProjection.Observation
import AgentHub.Agent.Loop
