import OlivawHub.Foundations.Machines
import OlivawHub.Foundations.Announcements
import OlivawHub.Foundations.Broadcast
import OlivawHub.Pipeline.Tables
import OlivawHub.System.Task
import OlivawHub.Api.Fields
import OlivawHub.Pipeline.Poses
import OlivawHub.Api.WebSocket
import OlivawHub.Api.HandOff
import OlivawHub.Api.Lagging
import OlivawHub.Slam.Thread
import OlivawHub.Pipeline.Handles
import OlivawHub.System.Core
import OlivawHub.System.Provenance
import OlivawHub.Pipeline.Maps
import OlivawHub.Api.Http
import OlivawHub.System.Maps
import OlivawHub.Foundations.Monitors
import OlivawHub.Foundations.LatestSlot
import OlivawHub.Slam.Mailbox
import OlivawHub.Foundations.BufferedWriter
import OlivawHub.Foundations.Framing
import OlivawHub.Session.Recorder
import OlivawHub.Session.Crash
import OlivawHub.Session.Failures
import OlivawHub.Pipeline.Reports
import OlivawHub.Session.Recording
import OlivawHub.Session.Replay
import OlivawHub.Session.Reading
import OlivawHub.Foundations.Marks
import OlivawHub.Slam.Trace
import OlivawHub.Slam.Decimate
import OlivawHub.System.ScanSizes
import OlivawHub.Api.Commands
import OlivawHub.Api.CommandRanges
import OlivawHub.Foundations.Renewals
import OlivawHub.Ingest.Mqtt
import OlivawHub.System.Sources
import OlivawHub.System.DeadWorkers
import OlivawHub.Foundations.Spacing
import OlivawHub.Pipeline.Rates
import OlivawHub.Api.Current
import OlivawHub.Api.Viewer
import OlivawHub.System.Views
import OlivawHub.Foundations.Writes
import OlivawHub.Foundations.Pgm
import OlivawHub.Slam.MapPixels
import OlivawHub.Foundations.ExactFloats
import OlivawHub.Foundations.Nearest
import OlivawHub.Session.Pacing
import OlivawHub.Sim.Cast
import OlivawHub.Ingest.Serial
import OlivawHub.System.Threads
import OlivawHub.System.Shutdown
import OlivawHub.Foundations.Pursuit
import OlivawHub.Sim.Room
import OlivawHub.Sim.Steering
import OlivawHub.Sim.Safety
import OlivawHub.Foundations.RwLocks
import OlivawHub.System.Locks
import OlivawHub.Api.Clients
import OlivawHub.Foundations.Products
import OlivawHub.System.Whole
import OlivawHub.Foundations.Retained
import OlivawHub.System.Broker
import OlivawHub.System.FakeCar
import OlivawHub.Foundations.Polar
import OlivawHub.Sim.Readings
import OlivawHub.Session.Relived
import OlivawHub.System.Drain
import OlivawHub.System.Reads
import OlivawHub.Foundations.Throttle
import OlivawHub.Ingest.SerialTrace
import OlivawHub.System.LidarClouds
import OlivawHub.Slam.Sequential
import OlivawHub.System.Sequential
import OlivawHub.System.Link
import OlivawHub.System.SimulatedCar
