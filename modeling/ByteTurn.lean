import ByteTurn.EventTimeline.Journal
import ByteTurn.EventLog.Decoding
import ByteTurn.ConversationSession.LastEvent
import ByteTurn.IncrementalTts.Backpressure
import ByteTurn.SessionExecutor.Cancellation
import ByteTurn.Agent.Streaming
import ByteTurn.Conversation.Rest
import ByteTurn.Conversation.Rejection
import ByteTurn.RuntimeManager.Tickets
import ByteTurn.RuntimeManager.Handles
import ByteTurn.RuntimeManager.Shutdown
import ByteTurn.OpenAiCompatible.Requests
import ByteTurn.OpenAiCompatible.Statuses
import ByteTurn.OpenAiCompatible.ToolCalls
import ByteTurn.FullDuplexConversation.BargeIn
import ByteTurn.FullDuplexConversation.Closing
import ByteTurn.SentenceSegmenter.Residual
import ByteTurn.RuntimeObserver.Latency
import ByteTurn.VoiceChatConnection.Output
import ByteTurn.VoiceChatConnection.Principals
import ByteTurn.AsyncSession
import ByteTurn.RuntimeObserver.Sessions
import ByteTurn.EventBus.Unsubscribe
import ByteTurn.Conversation.Speech
import ByteTurn.MetricsRegistry.Histograms
import ByteTurn.EventTimeline.Admission
import ByteTurn.SessionExecutor.Idle
import ByteTurn.CurlTransport.EmptyBlocks
import ByteTurn.CurlTransport.RetryAfter
import ByteTurn.FullDuplexConversation.InputWorker
import ByteTurn.IncrementalTts.Ordering
import ByteTurn.Json.Acceptance
import ByteTurn.Conversation.Endings
